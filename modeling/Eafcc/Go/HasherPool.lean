import Eafcc.Go.Cache
import Eafcc.Library.Pool
import Eafcc.Library.Run

namespace Eafcc.Go

open Eafcc.CfgCenter Transition

/-! # The hashers of a namespace

The calls that hash share the hashers of the namespace's pool.  Each operation on a hasher or
on the pool is a step of its own, and the steps of the goroutines interleave.
-/

/-- `hash.Hash`, and how `blake2s` makes a new one. -/
structure HashImpl (H : Type) where
  new256 : H
  write : H → List UInt8 → H
  sum : H → List UInt8 → List UInt8
  reset : H → H

/-- `data` is what was written to a hasher since it was in its initial state. -/
structure Documented {H : Type} (impl : HashImpl H) (digest : List UInt8 → List UInt8)
    (data : H → List UInt8) : Prop where
  new256 : data impl.new256 = []
  write : ∀ hasher bytes, data (impl.write hasher bytes) = data hasher ++ bytes
  sum : ∀ hasher bytes, impl.sum hasher bytes = bytes ++ digest (data hasher)
  reset : ∀ hasher, data (impl.reset hasher) = []

/-- The salt of a namespace. `random` is what the system's generator fills in. -/
def newHashSalt (cacheSalt random : List UInt8) : GoString :=
  if cacheSalt.length = 0 then random else cacheSalt

/-- The calls that take a hasher. -/
inductive HashCall where
  | newWhoAmI (raw : GoString)
  | makeCacheKey (whoami : WhoAmI) (key : GoString) (viewMode : ViewMode) (needExplain : Bool)

namespace HashCall

/-- What a call writes, one write after the other. -/
def writes (hashSalt : GoString) : HashCall → List (List UInt8)
  | .newWhoAmI raw => [hashSalt, raw]
  | .makeCacheKey whoami key viewMode needExplain =>
      [whoami.hash, [124], key, [124], [viewModeByte viewMode], [if needExplain then 1 else 0]]

/-- A context that is given to a call was made by an earlier one. -/
def Allowed (whoamis : List WhoAmI) : HashCall → Prop
  | .newWhoAmI _ => True
  | .makeCacheKey whoami _ _ _ => whoami ∈ whoamis

/-- The context that the call returns, if it returns one. -/
def made (t : List UInt8) : HashCall → List WhoAmI
  | .newWhoAmI raw => [{ raw, hash := t }]
  | .makeCacheKey .. => []

def request : HashCall → Option Request
  | .newWhoAmI _ => none
  | .makeCacheKey whoami key viewMode needExplain =>
      some { whoami := whoami.raw, key, viewMode, needExplain }

end HashCall

/-- Where a goroutine stands in a call, with its hasher. -/
inductive Goroutine where
  | idle
  | writing (hasher : Nat) (call : HashCall) (rest : List (List UInt8))
  | summed (hasher : Nat) (call : HashCall) (t : List UInt8)
  | reset (hasher : Nat) (call : HashCall) (t : List UInt8)

def Goroutine.hasher : Goroutine → Option Nat
  | .idle => none
  | .writing hasher _ _ | .summed hasher _ _ | .reset hasher _ _ => some hasher

/-- `whoamis` is not part of the program: it holds the contexts that were returned. -/
structure HasherState (H : Type) where
  pool : Pool.State H
  goroutines : Nat → Goroutine
  whoamis : List WhoAmI

inductive HasherAction where
  | get (goroutine : Nat) (call : HashCall) (hasher : Nat)
  | write (goroutine : Nat)
  | sum (goroutine : Nat)
  | reset (goroutine : Nat)
  | returns (goroutine : Nat) (call : HashCall) (t : List UInt8)
  | collect (hasher : Nat)

variable {H : Type}

def HasherState.start (impl : HashImpl H) : HasherState H where
  pool := { objects := fun _ => impl.new256, made := 0, idle := [] }
  goroutines := fun _ => .idle
  whoamis := []

/-- A step of a goroutine, or of the collector, which may drop any hasher in the pool. -/
inductive HasherStep (impl : HashImpl H) (hashSalt : GoString) :
    HasherState H → HasherAction → HasherState H → Prop
  | getNew {s : HasherState H} {goroutine : Nat} {call : HashCall} :
      s.goroutines goroutine = .idle → call.Allowed s.whoamis →
      HasherStep impl hashSalt s (.get goroutine call s.pool.made)
        { s with
          pool := s.pool.create impl.new256
          goroutines := Function.update s.goroutines goroutine
            (.writing s.pool.made call (call.writes hashSalt)) }
  | getIdle {s : HasherState H} {goroutine hasher : Nat} {call : HashCall} :
      s.goroutines goroutine = .idle → call.Allowed s.whoamis → hasher ∈ s.pool.idle →
      HasherStep impl hashSalt s (.get goroutine call hasher)
        { s with
          pool := s.pool.take hasher
          goroutines := Function.update s.goroutines goroutine
            (.writing hasher call (call.writes hashSalt)) }
  | write {s : HasherState H} {goroutine hasher : Nat} {call : HashCall} {part : List UInt8}
      {rest : List (List UInt8)} :
      s.goroutines goroutine = .writing hasher call (part :: rest) →
      HasherStep impl hashSalt s (.write goroutine)
        { s with
          pool := s.pool.use hasher fun object => impl.write object part
          goroutines := Function.update s.goroutines goroutine (.writing hasher call rest) }
  | sum {s : HasherState H} {goroutine hasher : Nat} {call : HashCall} :
      s.goroutines goroutine = .writing hasher call [] →
      HasherStep impl hashSalt s (.sum goroutine)
        { s with
          goroutines := Function.update s.goroutines goroutine
            (.summed hasher call (impl.sum (s.pool.objects hasher) [])) }
  | reset {s : HasherState H} {goroutine hasher : Nat} {call : HashCall} {t : List UInt8} :
      s.goroutines goroutine = .summed hasher call t →
      HasherStep impl hashSalt s (.reset goroutine)
        { s with
          pool := s.pool.use hasher impl.reset
          goroutines := Function.update s.goroutines goroutine (.reset hasher call t) }
  | put {s : HasherState H} {goroutine hasher : Nat} {call : HashCall} {t : List UInt8} :
      s.goroutines goroutine = .reset hasher call t →
      HasherStep impl hashSalt s (.returns goroutine call t)
        { pool := s.pool.give hasher
          goroutines := Function.update s.goroutines goroutine .idle
          whoamis := s.whoamis ++ call.made t }
  | collect {s : HasherState H} {hasher : Nat} :
      hasher ∈ s.pool.idle →
      HasherStep impl hashSalt s (.collect hasher) { s with pool := s.pool.take hasher }

/-! ## Runs -/

/-- The call that ends with the step and what it returns. -/
def HasherAction.answer : HasherAction → Option (HashCall × List UInt8)
  | .returns _ call t => some (call, t)
  | _ => none

abbrev HasherSteps (H : Type) := List (Taken (HasherState H) HasherAction)

def returnedCalls (steps : HasherSteps H) : List (HashCall × List UInt8) :=
  steps.filterMap fun taken => taken.label.answer

/-- The requests of the calls for a cache key that have returned. -/
def requested (steps : HasherSteps H) : Set Request :=
  {request | ∃ answer ∈ returnedCalls steps, answer.1.request = some request}

/-! ## What a call hashes -/

section Digest

variable (digest : List UInt8 → List UInt8) (hashSalt : GoString)

def HashCall.text (call : HashCall) : List UInt8 := (call.writes hashSalt).flatten

/-- The context of the call is the one that hashing its text gives. -/
def HashCall.Genuine : HashCall → Prop
  | .newWhoAmI _ => True
  | .makeCacheKey whoami _ _ _ => whoami = Go.newWhoAmI digest hashSalt whoami.raw

variable {digest hashSalt}

theorem made_genuine {call : HashCall} {whoami : WhoAmI}
    (member : whoami ∈ call.made (digest (call.text hashSalt))) :
    whoami = newWhoAmI digest hashSalt whoami.raw := by
  cases call with
  | newWhoAmI raw =>
      obtain rfl := List.mem_singleton.mp member
      simp [newWhoAmI, HashCall.text, HashCall.writes]
  | makeCacheKey whoami key viewMode needExplain => cases member

/-- What a call for a cache key returns is the cache key of its request. -/
theorem request_cacheKey {call : HashCall} {request : Request} (genuine : call.Genuine digest hashSalt)
    (asked : call.request = some request) :
    digest (call.text hashSalt) = request.cacheKey digest hashSalt := by
  cases call with
  | newWhoAmI raw => cases asked
  | makeCacheKey whoami key viewMode needExplain =>
      obtain rfl := Option.some.inj asked
      rw [Request.cacheKey, ← genuine, makeCacheKey]
      simp [HashCall.text, HashCall.writes, cacheKeyText]

end Digest

/-! ## The discipline of the pool -/

section Invariant

variable (digest : List UInt8 → List UInt8) (data : H → List UInt8) (hashSalt : GoString)

/-- What was written to the hasher of a call and what is still to be written is the text of
the call. -/
def Progress (pool : Pool.State H) : Goroutine → Prop
  | .idle => True
  | .writing hasher call rest => call.Genuine digest hashSalt ∧
      data (pool.objects hasher) ++ rest.flatten = call.text hashSalt
  | .summed _ call t => call.Genuine digest hashSalt ∧ t = digest (call.text hashSalt)
  | .reset hasher call t => call.Genuine digest hashSalt ∧ t = digest (call.text hashSalt) ∧
      data (pool.objects hasher) = []

/-- No hasher is shared, and those in the pool are in their initial state. -/
structure Sound (s : HasherState H) : Prop where
  owned : Pool.Owned s.pool fun goroutine => (s.goroutines goroutine).hasher
  clean : Pool.Clean (fun hasher => data hasher = []) s.pool
  whoamis : ∀ whoami ∈ s.whoamis, whoami = newWhoAmI digest hashSalt whoami.raw
  goroutines : ∀ goroutine, Progress digest data hashSalt s.pool (s.goroutines goroutine)

variable {digest data hashSalt} {impl : HashImpl H} {s next : HasherState H} {action : HasherAction}

theorem Progress.frame {pool pool' : Pool.State H} {goroutine : Goroutine}
    (progress : Progress digest data hashSalt pool goroutine)
    (same : ∀ hasher, goroutine.hasher = some hasher → pool'.objects hasher = pool.objects hasher) :
    Progress digest data hashSalt pool' goroutine := by
  cases goroutine with
  | idle => trivial
  | writing hasher call rest => rwa [Progress, same hasher rfl]
  | summed hasher call t => exact progress
  | reset hasher call t => rwa [Progress, same hasher rfl]

theorem hasher_update (goroutines : Nat → Goroutine) (goroutine : Nat) (now : Goroutine) :
    (fun other => (Function.update goroutines goroutine now other).hasher) =
      Function.update (fun other => (goroutines other).hasher) goroutine now.hasher :=
  Function.comp_update Goroutine.hasher goroutines goroutine now

/-- A step of one goroutine, if it leaves what the others have alone. -/
theorem Sound.update (sound : Sound digest data hashSalt s) {pool : Pool.State H} {goroutine : Nat}
    {now : Goroutine} {whoamis : List WhoAmI}
    (owned : Pool.Owned pool
      (Function.update (fun other => (s.goroutines other).hasher) goroutine now.hasher))
    (clean : Pool.Clean (fun hasher => data hasher = []) pool)
    (genuine : ∀ whoami ∈ whoamis, whoami = newWhoAmI digest hashSalt whoami.raw)
    (frame : ∀ other, other ≠ goroutine → ∀ hasher, (s.goroutines other).hasher = some hasher →
      pool.objects hasher = s.pool.objects hasher)
    (progress : Progress digest data hashSalt pool now) :
    Sound digest data hashSalt
      { pool, goroutines := Function.update s.goroutines goroutine now, whoamis } where
  owned := by rwa [hasher_update]
  clean := clean
  whoamis := genuine
  goroutines := by
    intro other
    by_cases same : other = goroutine
    · subst same
      simpa using progress
    · simp only [Function.update_of_ne same]
      exact (sound.goroutines other).frame (frame other same)

theorem Sound.genuine (sound : Sound digest data hashSalt s) {call : HashCall}
    (allowed : call.Allowed s.whoamis) : call.Genuine digest hashSalt := by
  cases call with
  | newWhoAmI raw => trivial
  | makeCacheKey whoami key viewMode needExplain => exact sound.whoamis whoami allowed

theorem start_sound : Sound digest data hashSalt (.start impl) where
  owned := Pool.owned_empty _
  clean := by simp [HasherState.start, Pool.Clean]
  whoamis := by simp [HasherState.start]
  goroutines := fun _ => trivial

theorem Sound.keeps (sound : Sound digest data hashSalt s) {goroutine hasher : Nat}
    (holds : (s.goroutines goroutine).hasher = some hasher) :
    Pool.Owned s.pool
      (Function.update (fun other => (s.goroutines other).hasher) goroutine (some hasher)) := by
  rw [← holds, Function.update_eq_self]
  exact sound.owned

/-- A step of one goroutine on its hasher. -/
theorem Sound.use (sound : Sound digest data hashSalt s) {goroutine hasher : Nat} {now : Goroutine}
    (holds : (s.goroutines goroutine).hasher = some hasher) (still : now.hasher = some hasher)
    (work : H → H) (progress : Progress digest data hashSalt (s.pool.use hasher work) now) :
    Sound digest data hashSalt
      { s with
        pool := s.pool.use hasher work
        goroutines := Function.update s.goroutines goroutine now } := by
  refine sound.update ?_ (sound.clean.use sound.owned holds) sound.whoamis
    (fun other apart found holds' => sound.owned.use_objects holds holds' apart) progress
  rw [still]
  exact (sound.keeps holds).use

theorem HasherStep.sound (documented : Documented impl digest data)
    (sound : Sound digest data hashSalt s) (step : HasherStep impl hashSalt s action next) :
    Sound digest data hashSalt next := by
  have progress := sound.goroutines
  cases step with
  | getNew _ allowed =>
      refine sound.update (sound.owned.create _ _) (sound.clean.create sound.owned _) sound.whoamis
        (fun other _ hasher holds => sound.owned.create_objects holds) ⟨sound.genuine allowed, ?_⟩
      rw [Pool.create_objects_made, documented.new256, List.nil_append]
      rfl
  | getIdle _ allowed member =>
      refine sound.update (sound.owned.take _ member) sound.clean.take sound.whoamis
        (fun other _ hasher _ => rfl) ⟨sound.genuine allowed, ?_⟩
      rw [Pool.take_objects, sound.clean _ member, List.nil_append]
      rfl
  | @write goroutine hasher call part rest here =>
      obtain ⟨genuine, written⟩ : Progress digest data hashSalt s.pool (.writing hasher call (part :: rest)) :=
        here ▸ progress goroutine
      refine sound.use (by rw [here]; rfl) rfl _ ⟨genuine, ?_⟩
      rw [Pool.use_objects, documented.write, List.append_assoc]
      exact written
  | @sum goroutine hasher call here =>
      obtain ⟨genuine, written⟩ : Progress digest data hashSalt s.pool (.writing hasher call []) :=
        here ▸ progress goroutine
      refine sound.update (sound.keeps (by rw [here]; rfl)) sound.clean sound.whoamis
        (fun other _ hasher _ => rfl) ⟨genuine, ?_⟩
      rw [List.flatten_nil, List.append_nil] at written
      rw [documented.sum, List.nil_append, written]
  | @reset goroutine hasher call t here =>
      obtain ⟨genuine, digested⟩ : Progress digest data hashSalt s.pool (.summed hasher call t) :=
        here ▸ progress goroutine
      refine sound.use (by rw [here]; rfl) rfl _ ⟨genuine, digested, ?_⟩
      rw [Pool.use_objects, documented.reset]
  | @put goroutine hasher call t here =>
      obtain ⟨-, rfl, initial⟩ : Progress digest data hashSalt s.pool (.reset hasher call t) :=
        here ▸ progress goroutine
      refine sound.update (sound.owned.give (by rw [here]; rfl)) (sound.clean.give initial) ?_
        (fun other _ hasher _ => rfl) trivial
      intro whoami member
      rcases List.mem_append.mp member with member | member
      · exact sound.whoamis whoami member
      · exact made_genuine member
  | collect _ =>
      exact { sound with owned := sound.owned.forget, clean := sound.clean.take }

/-- What is taken is in its initial state. -/
theorem HasherStep.get_initial (documented : Documented impl digest data)
    (sound : Sound digest data hashSalt s) (step : HasherStep impl hashSalt s action next)
    {goroutine hasher : Nat} {call : HashCall} (get : action = .get goroutine call hasher) :
    data (next.pool.objects hasher) = [] := by
  cases step with
  | getNew _ _ =>
      cases get
      rw [Pool.create_objects_made, documented.new256]
  | getIdle _ _ member =>
      cases get
      exact sound.clean hasher member
  | _ => cases get

/-- What a call returns is the digest of its text. -/
theorem HasherStep.answer_eq (sound : Sound digest data hashSalt s)
    (step : HasherStep impl hashSalt s action next) {call : HashCall} {t : List UInt8}
    (answer : action.answer = some (call, t)) :
    call.Genuine digest hashSalt ∧ t = digest (call.text hashSalt) := by
  cases step with
  | @put goroutine hasher _ _ here =>
      have progress := sound.goroutines goroutine
      rw [here] at progress
      cases answer
      exact ⟨progress.1, progress.2.1⟩
  | _ => cases answer

section Runs

variable {steps : HasherSteps H} (documented : Documented impl digest data)
  (run : Run (HasherStep impl hashSalt) (.start impl) steps s)

include documented run

theorem run_initial : ∀ taken ∈ steps, ∀ goroutine call hasher,
    taken.label = .get goroutine call hasher → data (taken.after.pool.objects hasher) = [] := by
  refine (run.forall_of (Sound digest data hashSalt) (fun _ _ => trivial) start_sound
    (fun _ _ _ sound step _ => step.sound documented sound) ?_).2
  intro before action after sound step _ goroutine call hasher get
  exact step.get_initial documented sound get

theorem run_answers : ∀ answer ∈ returnedCalls steps,
    answer.1.Genuine digest hashSalt ∧ answer.2 = digest (answer.1.text hashSalt) := by
  have each : ∀ taken ∈ steps, ∀ answer, taken.label.answer = some answer →
      answer.1.Genuine digest hashSalt ∧ answer.2 = digest (answer.1.text hashSalt) := by
    refine (run.forall_of (Sound digest data hashSalt) (fun _ _ => trivial) start_sound
      (fun _ _ _ sound step _ => step.sound documented sound) ?_).2
    intro before action after sound step _ answer returned
    exact step.answer_eq sound returned
  intro answer member
  obtain ⟨taken, member, returned⟩ := List.mem_filterMap.mp member
  exact each taken member answer returned

end Runs

end Invariant

/-! ## Calls return -/

theorem returnedCalls_append (steps more : HasherSteps H) :
    returnedCalls (steps ++ more) = returnedCalls steps ++ returnedCalls more :=
  List.filterMap_append

/-- The run ends a call of the goroutine, and no other call. -/
structure Finishes (impl : HashImpl H) (digest : List UInt8 → List UInt8) (hashSalt : GoString)
    (s : HasherState H) (goroutine hasher : Nat) (call : HashCall) (steps : HasherSteps H)
    (next : HasherState H) : Prop where
  run : Run (HasherStep impl hashSalt) s steps next
  returned : returnedCalls steps = [(call, digest (call.text hashSalt))]
  goroutines : next.goroutines = Function.update s.goroutines goroutine .idle
  idle : next.pool.idle = hasher :: s.pool.idle
  whoamis : next.whoamis = s.whoamis ++ call.made (digest (call.text hashSalt))

section Finishing

variable {impl : HashImpl H} {digest : List UInt8 → List UInt8} {data : H → List UInt8}
  {hashSalt : GoString} {s : HasherState H} {goroutine hasher : Nat} {call : HashCall}

/-- A goroutine needs no other one to end its call, whatever these have left in the pool. -/
theorem Sound.finishes (documented : Documented impl digest data) (rest : List (List UInt8))
    (sound : Sound digest data hashSalt s) (here : s.goroutines goroutine = .writing hasher call rest) :
    ∃ steps next, Finishes impl digest hashSalt s goroutine hasher call steps next := by
  induction rest generalizing s with
  | nil =>
      have written := sound.goroutines goroutine
      rw [here, Progress, List.flatten_nil, List.append_nil] at written
      have digested : impl.sum (s.pool.objects hasher) [] = digest (call.text hashSalt) := by
        rw [documented.sum, List.nil_append, written.2]
      have sums : HasherStep impl hashSalt s (.sum goroutine) _ := .sum here
      rw [digested] at sums
      have resets := (Run.nil.snoc sums).snoc (.reset (Function.update_self ..))
      refine ⟨_, _, resets.snoc (.put (Function.update_self ..)), rfl, ?_, rfl, rfl⟩
      simp only [Function.update_idem]
  | cons part rest ih =>
      have writing : HasherStep impl hashSalt s (.write goroutine) _ := .write here
      obtain ⟨steps, next, finishes⟩ := ih (writing.sound documented sound) (by simp)
      refine ⟨_, next, (Run.nil.snoc writing).append finishes.run, ?_, ?_, finishes.idle, finishes.whoamis⟩
      · rw [returnedCalls_append, finishes.returned]
        rfl
      · rw [finishes.goroutines, Function.update_idem]

theorem Sound.run {steps : HasherSteps H} {next : HasherState H} (documented : Documented impl digest data)
    (sound : Sound digest data hashSalt s) (run : Run (HasherStep impl hashSalt) s steps next) :
    Sound digest data hashSalt next :=
  run.invariant sound fun _ _ _ sound step => step.sound documented sound

/-- A goroutine that is not in a call can make any that is allowed. -/
theorem Sound.call_returns (documented : Documented impl digest data)
    (sound : Sound digest data hashSalt s) (goroutine : Nat) (call : HashCall) (idle : s.goroutines goroutine = .idle)
    (allowed : call.Allowed s.whoamis) :
    ∃ steps next, Finishes impl digest hashSalt s goroutine s.pool.made call steps next := by
  have gets : HasherStep impl hashSalt s (.get goroutine call s.pool.made) _ := .getNew idle allowed
  obtain ⟨steps, next, finishes⟩ :=
    (gets.sound documented sound).finishes documented _ (Function.update_self ..)
  refine ⟨_, next, (Run.nil.snoc gets).append finishes.run, ?_, ?_, finishes.idle, finishes.whoamis⟩
  · rw [returnedCalls_append, finishes.returned]
    rfl
  · rw [finishes.goroutines, Function.update_idem]

end Finishing

/-- Every hasher that is taken from the pool is in its initial state, and calls that return the
same cache key are for the same text of a context, key, view mode and flag. -/
theorem cacheKeys_separate {digest : List UInt8 → List UInt8} {data : H → List UInt8}
    {impl : HashImpl H} (documented : Documented impl digest data) (cacheSalt random : List UInt8)
    {steps : HasherSteps H} {s : HasherState H}
    (run : Run (HasherStep impl (newHashSalt cacheSalt random)) (.start impl) steps s) :
    (∀ taken ∈ steps, ∀ goroutine call hasher, taken.label = .get goroutine call hasher →
        data (taken.after.pool.objects hasher) = []) ∧
      (NoCollisions digest (newHashSalt cacheSalt random) (requested steps) →
        ∀ first ∈ returnedCalls steps, ∀ second ∈ returnedCalls steps, ∀ request other,
          first.1.request = some request → second.1.request = some other → first.2 = second.2 →
          request = other) := by
  have answers := run_answers documented run
  refine ⟨run_initial documented run, fun noCollisions first member second member' request other asked asked' same => ?_⟩
  obtain ⟨genuine, bytes⟩ := answers first member
  obtain ⟨genuine', bytes'⟩ := answers second member'
  apply noCollisions.cacheKey_injective ⟨first, member, asked⟩ ⟨second, member', asked'⟩
  rw [← request_cacheKey genuine asked, ← request_cacheKey genuine' asked', ← bytes, ← bytes', same]

/-! ### Two keys, one of which goes on with the separator -/

/-- A hasher that keeps what is written to it. -/
def keepingHash (digest : List UInt8 → List UInt8) : HashImpl (List UInt8) where
  new256 := []
  write := fun hasher bytes => hasher ++ bytes
  sum := fun hasher bytes => bytes ++ digest hasher
  reset := fun _ => []

theorem keepingHash_documented (digest : List UInt8 → List UInt8) :
    Documented (keepingHash digest) digest id :=
  ⟨rfl, fun _ _ => rfl, fun _ _ => rfl, fun _ => rfl⟩

def sampleWhoamiHash : List UInt8 :=
  [160, 138, 225, 176, 222, 247, 234, 152, 194, 23, 204, 193, 20, 15, 65, 25, 9, 188, 84, 94, 128,
    142, 102, 41, 238, 69, 17, 199, 45, 181, 36, 58]

/-- The digests that BLAKE2s-256 has for the texts of the sample. -/
def sampleBlake2s (text : List UInt8) : List UInt8 :=
  if text = [115, 97] then sampleWhoamiHash
  else if text = sampleWhoamiHash ++ [124, 107, 124, 0, 0] then
    [127, 93, 54, 111, 41, 95, 22, 130, 83, 110, 71, 188, 245, 27, 194, 130, 6, 4, 63, 198, 43, 149,
      55, 125, 139, 210, 80, 137, 3, 76, 198, 108]
  else if text = sampleWhoamiHash ++ [124, 107, 124, 124, 0, 0] then
    [78, 231, 1, 179, 58, 5, 84, 90, 81, 43, 227, 11, 34, 58, 88, 254, 27, 206, 77, 252, 67, 120, 92,
      153, 249, 67, 27, 216, 176, 8, 206, 151]
  else (text ++ List.replicate 32 0).take 32

def sampleKeyCall (key : GoString) : HashCall :=
  .makeCacheKey { raw := [97], hash := sampleWhoamiHash } key .overlaidView false

def sampleKeyRequest (key : GoString) : Request :=
  { whoami := [97], key, viewMode := .overlaidView, needExplain := false }

theorem sampleBlake2s_noCollisions :
    NoCollisions sampleBlake2s [115] {sampleKeyRequest [107], sampleKeyRequest [107, 124]} := by
  refine ⟨fun text => ?_, ?_⟩
  · unfold sampleBlake2s
    repeat' split
    all_goals simp [sampleWhoamiHash]
  · have apart : ∀ first ∈ [[115, 97], sampleWhoamiHash ++ [124, 107, 124, 0, 0],
          sampleWhoamiHash ++ [124, 107, 124, 124, 0, 0]],
        ∀ second ∈ [[115, 97], sampleWhoamiHash ++ [124, 107, 124, 0, 0],
          sampleWhoamiHash ++ [124, 107, 124, 124, 0, 0]],
        sampleBlake2s first = sampleBlake2s second → first = second := by
      decide
    have texts : ∀ text ∈ hashed sampleBlake2s [115] {sampleKeyRequest [107], sampleKeyRequest [107, 124]},
        text ∈ [[115, 97], sampleWhoamiHash ++ [124, 107, 124, 0, 0],
          sampleWhoamiHash ++ [124, 107, 124, 124, 0, 0]] := by
      intro text member
      simp only [hashed, Set.image_pair, Set.mem_union, Set.mem_insert_iff, Set.mem_singleton_iff] at member
      rcases member with (rfl | rfl) | rfl | rfl <;> decide
    exact fun first member second member' same =>
      apart first (texts first member) second (texts second member') same

/-- Two goroutines hash at the same time, one of them with the hasher of an earlier call. -/
theorem sampleKeys_run : ∃ steps s,
    Run (HasherStep (keepingHash sampleBlake2s) [115]) (.start (keepingHash sampleBlake2s)) steps s ∧
      returnedCalls steps = [(.newWhoAmI [97], sampleWhoamiHash),
        (sampleKeyCall [107], sampleBlake2s ((sampleKeyCall [107]).text [115])),
        (sampleKeyCall [107, 124], sampleBlake2s ((sampleKeyCall [107, 124]).text [115]))] := by
  have documented := keepingHash_documented sampleBlake2s
  have initial : Sound sampleBlake2s id [115] (.start (keepingHash sampleBlake2s)) := start_sound
  obtain ⟨steps₁, s₁, made⟩ := initial.call_returns documented 0 (.newWhoAmI [97]) rfl trivial
  have sound₁ := initial.run documented made.run
  have idle : s₁.goroutines = fun _ => .idle := by
    rw [made.goroutines]
    exact Function.update_eq_self 0 _
  have allowed : ∀ key, (sampleKeyCall key).Allowed s₁.whoamis := by
    intro key
    rw [made.whoamis]
    exact List.mem_singleton_self _
  have again : 0 ∈ s₁.pool.idle := by
    rw [made.idle]
    exact List.mem_singleton_self _
  obtain ⟨s₂, takes, here₂, same⟩ : ∃ s₂,
      HasherStep (keepingHash sampleBlake2s) [115] s₁ (.get 0 (sampleKeyCall [107]) 0) s₂ ∧
        s₂.goroutines = Function.update s₁.goroutines 0
          (.writing 0 (sampleKeyCall [107]) ((sampleKeyCall [107]).writes [115])) ∧
        s₂.whoamis = s₁.whoamis :=
    ⟨_, .getIdle (congrFun idle 0) (allowed [107]) again, rfl, rfl⟩
  have idle₂ : s₂.goroutines 1 = .idle := by
    rw [here₂, idle]
    rfl
  obtain ⟨s₃, creates, here₃⟩ : ∃ s₃,
      HasherStep (keepingHash sampleBlake2s) [115] s₂
          (.get 1 (sampleKeyCall [107, 124]) s₂.pool.made) s₃ ∧
        s₃.goroutines = Function.update s₂.goroutines 1 (.writing s₂.pool.made
          (sampleKeyCall [107, 124]) ((sampleKeyCall [107, 124]).writes [115])) :=
    ⟨_, .getNew idle₂ (same ▸ allowed [107, 124]), rfl⟩
  have gets := (Run.nil.snoc takes).snoc creates
  have sound₃ := sound₁.run documented gets
  have writes₃ : s₃.goroutines 0 =
      .writing 0 (sampleKeyCall [107]) ((sampleKeyCall [107]).writes [115]) := by
    rw [here₃, here₂]
    rfl
  obtain ⟨steps₄, s₄, finishes₄⟩ := sound₃.finishes documented _ writes₃
  have writes₄ : s₄.goroutines 1 = .writing s₂.pool.made (sampleKeyCall [107, 124])
      ((sampleKeyCall [107, 124]).writes [115]) := by
    rw [finishes₄.goroutines, here₃]
    rfl
  obtain ⟨steps₅, s₅, finishes₅⟩ :=
    (sound₃.run documented finishes₄.run).finishes documented _ writes₄
  have run := ((made.run.append gets).append finishes₄.run).append finishes₅.run
  refine ⟨_, s₅, run, ?_⟩
  rw [returnedCalls_append, returnedCalls_append, returnedCalls_append, made.returned,
    finishes₄.returned, finishes₅.returned]
  rfl

theorem sampleKeys_requested {steps : HasherSteps (List UInt8)} {first second third : List UInt8}
    (returned : returnedCalls steps = [(.newWhoAmI [97], first), (sampleKeyCall [107], second),
      (sampleKeyCall [107, 124], third)]) :
    requested steps ⊆ {sampleKeyRequest [107], sampleKeyRequest [107, 124]} := by
  intro request present
  obtain ⟨answer, member, asked⟩ := present
  rw [returned] at member
  simp only [List.mem_cons, List.not_mem_nil, or_false] at member
  rcases member with rfl | rfl | rfl
  · cases asked
  · exact .inl (Option.some.inj asked).symm
  · exact .inr (Option.some.inj asked).symm

theorem cacheKeys_separate_sample : ∃ steps s first second,
    Run (HasherStep (keepingHash sampleBlake2s) [115]) (.start (keepingHash sampleBlake2s)) steps s ∧
      (sampleKeyCall [107], first) ∈ returnedCalls steps ∧
      (sampleKeyCall [107, 124], second) ∈ returnedCalls steps ∧ first ≠ second := by
  obtain ⟨steps, s, run, returned⟩ := sampleKeys_run
  have answers : ∀ key ∈ [[107], [107, 124]],
      (sampleKeyCall key, sampleBlake2s ((sampleKeyCall key).text [115])) ∈ returnedCalls steps := by
    simp [returned]
  have first := answers [107] (by decide)
  have second := answers [107, 124] (by decide)
  refine ⟨steps, s, _, _, run, first, second, fun same => ?_⟩
  have separate := cacheKeys_separate (keepingHash_documented sampleBlake2s) [115] [] run
  have equal := separate.2 (sampleBlake2s_noCollisions.mono (sampleKeys_requested returned)) _ first
    _ second _ _ rfl rfl same
  exact absurd (congrArg Request.key equal) (by decide)

end Eafcc.Go
