import Eafcc.Ffi
import Eafcc.Library.Heap
import Eafcc.Library.Run

namespace Eafcc.Ffi.LastError

open Memory Transition

/-! # The last error of each thread

A call that fails keeps its error in a variable of its thread.  The pointer that
`get_last_error` returns leads to that variable, and from there to a C string that
lives until the next call of `get_last_error` by the thread.
-/

structure EAFCCError where
  msg : Option Nat
  code : Int

structure InternalLastError where
  msg : Str
  code : Int
  cString : Nat
  exposedError : EAFCCError

/-- The value that the variable of a thread gets at its first use. -/
def initial : Program CText InternalLastError := do
  let cString ← alloc []
  return { msg := [], code := 0, cString, exposedError := { msg := none, code := 0 } }

/-- `CString::new(text).unwrap_or_default()` -/
def orDefault (text : Str) : CText :=
  match CText.new text with
  | .ok bytes => bytes
  | .error _ => []

/-- The variable of a thread, as `LocalKey::with` finds it. -/
def lastError (slot : Option InternalLastError) : Program CText InternalLastError :=
  match slot with
  | some r => return r
  | none => initial

def setLastError (code : Int) (msg : Str) (slot : Option InternalLastError) :
    Program CText InternalLastError := do
  let r ← lastError slot
  return { r with code, msg }

def getLastError (slot : Option InternalLastError) : Program CText InternalLastError := do
  let r ← lastError slot
  let cString ← alloc (orDefault r.msg)
  -- The string that was there is dropped by the assignment.
  free r.cString
  return { r with cString, exposedError := { msg := some cString, code := r.code } }

/-! ## Threads -/

structure State where
  heap : Heap CText
  slots : Nat → Option InternalLastError

def State.start : State := { heap := .empty, slots := fun _ => none }

/-- What a thread does with its variable. As it ends the variable is dropped. -/
inductive Action where
  | fails (code : Int) (msg : Str)
  | gets
  | exits

inductive Step : State → Nat × Action → State → Prop
  | fails {s : State} {t : Nat} {code : Int} {msg : Str} {r : InternalLastError} {heap : Heap CText} :
      setLastError code msg (s.slots t) s.heap = some (r, heap) →
      Step s (t, .fails code msg) { heap, slots := Function.update s.slots t (some r) }
  | gets {s : State} {t : Nat} {r : InternalLastError} {heap : Heap CText} :
      getLastError (s.slots t) s.heap = some (r, heap) →
      Step s (t, .gets) { heap, slots := Function.update s.slots t (some r) }
  | exits {s : State} {t : Nat} {r : InternalLastError} {heap : Heap CText} :
      s.slots t = some r → free r.cString s.heap = some ((), heap) →
      Step s (t, .exits) { heap, slots := Function.update s.slots t none }

/-- The address of the text that the pointer of a thread leads to. -/
def State.exposedText (s : State) (t : Nat) : Option Nat := (s.slots t).bind fun r => r.exposedError.msg

/-- The code and the text that are read through the pointer of a thread. -/
def State.exposed (s : State) (t : Nat) : Option (Int × CText) := do
  let r ← s.slots t
  let msg ← r.exposedError.msg
  let text ← s.heap.blocks.lookup msg
  return (r.exposedError.code, text)

/-! ## What a thread should see -/

/-- The last error of a thread, and what it was shown last. -/
structure Seen where
  last : Int × Str
  shown : Option (Int × CText)

def Seen.start : Seen := { last := (0, []), shown := none }

def Seen.after (seen : Seen) : Action → Seen
  | .fails code msg => { seen with last := (code, msg) }
  | .gets => { seen with shown := some (seen.last.1, orDefault seen.last.2) }
  | .exits => .start

abbrev Steps := List (Taken State (Nat × Action))

def own (t : Nat) (steps : Steps) : List Action :=
  (steps.filter fun taken => taken.label.1 = t).map fun taken => taken.label.2

def seen (t : Nat) (steps : Steps) : Seen := (own t steps).foldl Seen.after .start

theorem seen_snoc {t : Nat} {steps : Steps} {taken : Taken State (Nat × Action)} :
    seen t (steps ++ [taken]) =
      if taken.label.1 = t then (seen t steps).after taken.label.2 else seen t steps := by
  by_cases here : taken.label.1 = t
  · simp [seen, own, here]
  · simp [seen, own, here]

/-! ## What a step does to the strings -/

/-- The string of one thread goes from one address to another. -/
structure Changes (heap heap' : Heap CText) (old new : Option Nat) : Prop where
  later : heap.next ≤ heap'.next
  others : ∀ address, old ≠ some address → new ≠ some address →
    heap'.blocks.lookup address = heap.blocks.lookup address
  held : ∀ address, new = some address →
    address ∈ heap'.blocks ∧ (old = some address ∨ heap.next ≤ address)
  gone : ∀ address, old = some address → new ≠ some address → address ∉ heap'.blocks

theorem mem_iff_lookup {heap : Heap CText} {address : Nat} :
    address ∈ heap.blocks ↔ heap.blocks.lookup address ≠ none := by
  rw [ne_eq, Finmap.lookup_eq_none, not_not]

section Changes

variable {heap heap' heap'' : Heap CText} {first second third : Option Nat}

theorem Changes.refl {address : Nat} (present : address ∈ heap.blocks) :
    Changes heap heap (some address) (some address) where
  later := Nat.le_refl _
  others := fun _ _ _ => rfl
  held := fun _ same => ⟨Option.some.inj same ▸ present, .inl same⟩
  gone := fun _ same other => absurd same other

theorem Changes.trans (one : Changes heap heap' first second) (two : Changes heap' heap'' second third) :
    Changes heap heap'' first third where
  later := Nat.le_trans one.later two.later
  others := by
    intro address away away'
    by_cases between : second = some address
    · have fresh := (one.held address between).2.resolve_left away
      have absent : address ∉ heap.blocks := fun present => Nat.not_lt.mpr fresh (heap.fresh address present)
      rw [Finmap.lookup_eq_none.mpr absent, Finmap.lookup_eq_none.mpr (two.gone address between away')]
    · rw [two.others address between away', one.others address away between]
  held := by
    intro address now
    obtain ⟨present, origin⟩ := two.held address now
    refine ⟨present, ?_⟩
    rcases origin with between | fresh
    · exact (one.held address between).2
    · exact .inr (Nat.le_trans one.later fresh)
  gone := by
    intro address before now
    by_cases between : second = some address
    · exact two.gone address between now
    · have absent := one.gone address before between
      rw [mem_iff_lookup, two.others address between now, ← mem_iff_lookup]
      exact absent

theorem Changes.alloc (text : CText) (heap : Heap CText) : ∃ heap', alloc text heap = some (heap.next, heap') ∧
    heap'.blocks.lookup heap.next = some text ∧ Changes heap heap' none (some heap.next) := by
  obtain ⟨heap', ran, later, found⟩ := alloc_eq text heap
  have made : heap'.blocks.lookup heap.next = some text := by rw [found, if_pos rfl]
  refine ⟨heap', ran, made, by omega, fun address _ other => ?_, fun address same => ?_, fun _ none_ => by cases none_⟩
  · rw [found, if_neg fun same => other (by rw [same])]
  · obtain rfl := Option.some.inj same
    exact ⟨mem_iff_lookup.mpr (by rw [made]; simp), .inr (Nat.le_refl _)⟩

theorem Changes.free {address : Nat} (present : address ∈ heap.blocks) :
    ∃ heap', Memory.free address heap = some ((), heap') ∧ Changes heap heap' (some address) none := by
  obtain ⟨heap', ran, same, found⟩ := free_eq present
  refine ⟨heap', ran, by omega, fun other away _ => ?_, fun _ none_ => (by cases none_), fun other here _ => ?_⟩
  · rw [found, if_neg fun same => away (by rw [same])]
  · obtain rfl := Option.some.inj here
    rw [mem_iff_lookup, found, if_pos rfl]
    simp

/-- The string of a thread that takes the place of another one. -/
theorem Changes.replace {address : Nat} (text : CText) (present : address ∈ heap.blocks) :
    ∃ heap' heap'', Memory.alloc text heap = some (heap.next, heap') ∧ Memory.free address heap' = some ((), heap'') ∧
      heap''.blocks.lookup heap.next = some text ∧ Changes heap heap'' (some address) (some heap.next) := by
  obtain ⟨heap', allocated, later, found⟩ := alloc_eq text heap
  have old : address ≠ heap.next := Nat.ne_of_lt (heap.fresh address present)
  have still : address ∈ heap'.blocks := by
    rw [mem_iff_lookup, found, if_neg old, ← mem_iff_lookup]
    exact present
  obtain ⟨heap'', freed, same, found'⟩ := free_eq still
  have made : heap''.blocks.lookup heap.next = some text := by
    rw [found', if_neg old.symm, found, if_pos rfl]
  refine ⟨heap', heap'', allocated, freed, made, by omega, fun other away away' => ?_, fun other here => ?_,
    fun other here _ => ?_⟩
  · rw [found', if_neg fun same => away (by rw [same]), found, if_neg fun same => away' (by rw [same])]
  · obtain rfl := Option.some.inj here
    exact ⟨mem_iff_lookup.mpr (by rw [made]; simp), .inr (Nat.le_refl _)⟩
  · obtain rfl := Option.some.inj here
    rw [mem_iff_lookup, found', if_pos rfl]
    simp

end Changes

/-! ## The three actions -/

def State.stringOf (s : State) (t : Nat) : Option Nat := (s.slots t).map fun r => r.cString

/-- Each variable has a string of its own, to which it exposes at most that string. -/
structure State.Sound (s : State) : Prop where
  held : ∀ t address, s.stringOf t = some address → address ∈ s.heap.blocks
  apart : ∀ t u address, s.stringOf t = some address → s.stringOf u = some address → t = u
  only : ∀ address ∈ s.heap.blocks, ∃ t, s.stringOf t = some address
  shown : ∀ t address, s.exposedText t = some address → s.stringOf t = some address

section Steps

variable {s s' : State} {t : Nat} {heap heap' : Heap CText} {r : InternalLastError} {slot : Option InternalLastError}

theorem lastError_eq (held : ∀ r, slot = some r → r.cString ∈ heap.blocks) :
    ∃ r heap', lastError slot heap = some (r, heap') ∧
      Changes heap heap' (slot.map fun r => r.cString) (some r.cString) ∧
      ((slot = none ∧ r.msg = [] ∧ r.code = 0 ∧ r.exposedError.msg = none) ∨ (slot = some r ∧ heap' = heap)) := by
  cases slot with
  | some r => exact ⟨r, heap, rfl, .refl (held r rfl), .inr ⟨rfl, rfl⟩⟩
  | none =>
      obtain ⟨heap', ran, -, changes⟩ := Changes.alloc [] heap
      exact ⟨_, heap', bind_runs ran, changes, .inl ⟨rfl, rfl, rfl, rfl⟩⟩

/-- A string of another thread is neither the one that goes nor the one that comes. -/
theorem State.Sound.away (sound : s.Sound) {now : Option Nat} (changes : Changes s.heap heap (s.stringOf t) now)
    {u address : Nat} (other : u ≠ t) (has : s.stringOf u = some address) :
    s.stringOf t ≠ some address ∧ now ≠ some address := by
  refine ⟨fun same => other (sound.apart u t address has same), fun here => ?_⟩
  rcases (changes.held address here).2 with before | fresh
  · exact other (sound.apart u t address has before)
  · exact Nat.not_lt.mpr fresh (s.heap.fresh address (sound.held u address has))

def State.set (s : State) (t : Nat) (heap : Heap CText) (slot : Option InternalLastError) : State :=
  { heap, slots := Function.update s.slots t slot }

theorem set_self {slot : Option InternalLastError} : (s.set t heap slot).slots t = slot := by
  simp [State.set]

theorem set_other {slot : Option InternalLastError} {u : Nat} (other : u ≠ t) :
    (s.set t heap slot).slots u = s.slots u := by
  simp [State.set, other]

/-- The string of one thread changes. -/
theorem State.Sound.changes (sound : s.Sound)
    (changes : Changes s.heap heap (s.stringOf t) (slot.map fun r => r.cString))
    (shown : ∀ address, (slot.bind fun r => r.exposedError.msg) = some address →
      (slot.map fun r => r.cString) = some address) : (s.set t heap slot).Sound := by
  have mine : (s.set t heap slot).stringOf t = slot.map fun r => r.cString := by
    rw [State.stringOf, set_self]
  have others : ∀ u, u ≠ t → (s.set t heap slot).stringOf u = s.stringOf u := by
    intro u other
    rw [State.stringOf, set_other other, State.stringOf]
  have held : ∀ u address, (s.set t heap slot).stringOf u = some address → address ∈ heap.blocks := by
    intro u address has
    by_cases own : u = t
    · rw [own, mine] at has
      exact (changes.held address has).1
    · rw [others u own] at has
      obtain ⟨before, now⟩ := sound.away changes own has
      rw [mem_iff_lookup, changes.others address before now, ← mem_iff_lookup]
      exact sound.held u address has
  refine ⟨held, fun u v address first second => ?_, fun address present => ?_, fun u address exposed => ?_⟩
  · by_cases own : u = t
    · by_cases own' : v = t
      · rw [own, own']
      · rw [own, mine] at first
        rw [others v own'] at second
        exact absurd first (sound.away changes own' second).2
    · rw [others u own] at first
      by_cases own' : v = t
      · rw [own', mine] at second
        exact absurd second (sound.away changes own first).2
      · rw [others v own'] at second
        exact sound.apart u v address first second
  · by_cases now : (slot.map fun r => r.cString) = some address
    · exact ⟨t, mine.trans now⟩
    · have before : s.stringOf t ≠ some address := fun before => changes.gone address before now present
      have present : address ∈ heap.blocks := present
      rw [mem_iff_lookup, changes.others address before now, ← mem_iff_lookup] at present
      obtain ⟨u, has⟩ := sound.only address present
      have other : u ≠ t := fun same => before (same ▸ has)
      exact ⟨u, (others u other).trans has⟩
  · by_cases own : u = t
    · rw [own, State.exposedText, set_self] at exposed
      rw [own, mine]
      exact shown address exposed
    · rw [State.exposedText, set_other own] at exposed
      rw [others u own]
      exact sound.shown u address exposed

/-- What other threads are shown stays as it is. -/
theorem State.Sound.exposed_other (sound : s.Sound)
    (changes : Changes s.heap heap (s.stringOf t) (slot.map fun r => r.cString)) {u : Nat} (other : u ≠ t) :
    (s.set t heap slot).exposed u = s.exposed u := by
  rw [State.exposed, set_other other, State.exposed]
  cases found : s.slots u with
  | none => rfl
  | some r =>
      cases msg : r.exposedError.msg with
      | none => simp [msg]
      | some address =>
          have exposed : s.exposedText u = some address := by simp [State.exposedText, found, msg]
          obtain ⟨before, now⟩ := sound.away changes other (sound.shown u address exposed)
          simp [msg, State.set, changes.others address before now]

/-- The variable of a thread holds what the thread has done to it. -/
def State.Agrees (s : State) (t : Nat) (seen : Seen) : Prop :=
  s.exposed t = seen.shown ∧
    match s.slots t with
    | some r => (r.code, r.msg) = seen.last
    | none => seen = .start

/-- What a step of a thread does: its string changes, and its variable goes on to agree. -/
structure Acts (s : State) (t : Nat) (seen : Seen) (action : Action) (heap : Heap CText)
    (slot : Option InternalLastError) : Prop where
  step : Step s (t, action) (s.set t heap slot)
  only : ∀ s', Step s (t, action) s' → s' = s.set t heap slot
  changes : Changes s.heap heap (s.stringOf t) (slot.map fun r => r.cString)
  shown : ∀ address, (slot.bind fun r => r.exposedError.msg) = some address →
    (slot.map fun r => r.cString) = some address
  kept : ∀ address, (slot.map fun r => r.cString) = some address → s.exposedText t = some address →
    (slot.bind fun r => r.exposedError.msg) = some address
  agrees : (s.set t heap slot).Agrees t (seen.after action)

theorem State.Sound.slot_held (sound : s.Sound) (t : Nat) :
    ∀ r, s.slots t = some r → r.cString ∈ s.heap.blocks := by
  intro r found
  exact sound.held t _ (by rw [State.stringOf, found]; rfl)

theorem fails_acts (sound : s.Sound) {seen : Seen} (agrees : s.Agrees t seen) (code : Int) (msg : Str) :
    ∃ heap slot, Acts s t seen (.fails code msg) heap slot := by
  obtain ⟨r, heap, ran, changes, origin⟩ := lastError_eq (sound.slot_held t)
  have set : setLastError code msg (s.slots t) s.heap = some ({ r with code, msg }, heap) := bind_runs ran
  refine ⟨heap, some { r with code, msg }, .fails set, fun s' step => ?_, changes, fun address exposed => ?_,
    fun address _ exposed => ?_, ?_, ?_⟩
  · cases step with
    | fails set' =>
        rw [set] at set'
        cases set'
        rfl
  · rcases origin with ⟨-, -, -, none_⟩ | ⟨found, -⟩
    · rw [Option.bind_some, none_] at exposed
      cases exposed
    · have has := sound.shown t address (by rw [State.exposedText, found]; exact exposed)
      rwa [State.stringOf, found] at has
  · rcases origin with ⟨found, -⟩ | ⟨found, -⟩
    · rw [State.exposedText, found] at exposed
      cases exposed
    · rwa [State.exposedText, found] at exposed
  · rw [State.exposed, set_self]
    rcases origin with ⟨found, -, -, none_⟩ | ⟨found, rfl⟩
    · have started := agrees.2
      rw [found] at started
      rw [started]
      simp [none_, Seen.after, Seen.start]
    · have before := agrees.1
      rw [State.exposed, found] at before
      exact before
  · rw [set_self]
    rfl

theorem gets_acts (sound : s.Sound) {seen : Seen} (agrees : s.Agrees t seen) :
    ∃ heap slot, Acts s t seen .gets heap slot := by
  obtain ⟨r, heap, ran, changes, origin⟩ := lastError_eq (sound.slot_held t)
  obtain ⟨heap', heap'', allocated, freed, made, replaced⟩ :=
    Changes.replace (orDefault r.msg) (changes.held r.cString rfl).1
  have got : getLastError (s.slots t) s.heap = some ({ r with
      cString := heap.next, exposedError := { msg := some heap.next, code := r.code } }, heap'') := by
    rw [getLastError, bind_runs ran, bind_runs allocated, bind_runs freed]
    rfl
  have last : (r.code, r.msg) = seen.last := by
    have holds := agrees.2
    rcases origin with ⟨found, msg, code, -⟩ | ⟨found, -⟩
    · rw [found] at holds
      rw [msg, code, holds]
      rfl
    · rw [found] at holds
      exact holds
  refine ⟨heap'', some _, .gets got, fun s' step => ?_, changes.trans replaced, fun address exposed => exposed,
    fun address now _ => now, ?_, ?_⟩
  · cases step with
    | gets got' =>
        rw [got] at got'
        cases got'
        rfl
  · rw [State.exposed, set_self]
    simp [State.set, made, Seen.after, ← last]
  · rw [set_self]
    exact last

theorem exits_acts (sound : s.Sound) {seen : Seen} (running : s.slots t ≠ none) :
    ∃ heap slot, Acts s t seen .exits heap slot := by
  obtain ⟨r, found⟩ := Option.ne_none_iff_exists'.mp running
  have has : s.stringOf t = some r.cString := by rw [State.stringOf, found]; rfl
  obtain ⟨heap, freed, changes⟩ := Changes.free (sound.held t _ has)
  refine ⟨heap, none, .exits found freed, fun s' step => ?_, has ▸ changes, fun _ exposed => (by cases exposed),
    fun _ now => (by cases now), ?_, ?_⟩
  · cases step with
    | exits found' freed' =>
        rw [found] at found'
        cases found'
        rw [freed] at freed'
        cases freed'
        rfl
  · rw [State.exposed, set_self]
    rfl
  · rw [set_self]
    rfl

theorem acts (sound : s.Sound) {seen : Seen} (agrees : s.Agrees t seen) (action : Action)
    (possible : action = .exits → s.slots t ≠ none) : ∃ heap slot, Acts s t seen action heap slot := by
  cases action with
  | fails code msg => exact fails_acts sound agrees code msg
  | gets => exact gets_acts sound agrees
  | exits => exact exits_acts sound (possible rfl)

end Steps

/-! ## Runs -/

/-- What a run leaves to be seen, and what became of the texts that were shown before. -/
structure State.Told (steps : Steps) (s : State) : Prop where
  agrees : ∀ t, s.Agrees t (seen t steps)
  stale : ∀ taken ∈ steps, ∀ t address, taken.label = (t, .gets) → taken.after.exposedText t = some address →
    address < s.heap.next ∧ (address ∈ s.heap.blocks → s.exposedText t = some address)

section Runs

variable {s s' : State} {steps : Steps} {label : Nat × Action}

theorem start_sound : State.start.Sound :=
  ⟨fun _ _ has => (by cases has), fun _ _ _ has => (by cases has),
    fun _ present => absurd present Finmap.notMem_empty, fun _ _ exposed => (by cases exposed)⟩

theorem Step.possible (step : Step s label s') : label.2 = .exits → s.slots label.1 ≠ none := by
  intro exits
  cases step with
  | fails => cases exits
  | gets => cases exits
  | exits found => simp [found]

theorem Step.keeps (step : Step s label s') (sound : s.Sound) (told : s.Told steps) :
    s'.Sound ∧ s'.Told (steps ++ [⟨s, label, s'⟩]) := by
  obtain ⟨heap, slot, act⟩ := acts sound (told.agrees label.1) label.2 step.possible
  obtain rfl := act.only s' step
  have sound' := sound.changes act.changes act.shown
  refine ⟨sound', fun t => ?_, ?_⟩
  · rw [seen_snoc]
    by_cases own : label.1 = t
    · subst own
      rw [if_pos rfl]
      exact act.agrees
    · rw [if_neg own, State.Agrees, sound.exposed_other act.changes (Ne.symm own), set_other (Ne.symm own)]
      exact told.agrees t
  · intro taken member t address asked exposed
    rcases List.mem_append.mp member with before | last
    · obtain ⟨below, still⟩ := told.stale taken before t address asked exposed
      refine ⟨Nat.lt_of_lt_of_le below act.changes.later, fun present => ?_⟩
      have present : address ∈ heap.blocks := present
      by_cases now : (slot.map fun r => r.cString) = some address
      · have old : s.stringOf label.1 = some address :=
          (act.changes.held address now).2.resolve_right (Nat.not_le.mpr below)
        have shown := still (sound.held _ _ old)
        obtain rfl := sound.apart t label.1 address (sound.shown t address shown) old
        rw [State.exposedText, set_self]
        exact act.kept address now shown
      · have old : s.stringOf label.1 ≠ some address := fun old => act.changes.gone address old now present
        rw [mem_iff_lookup, act.changes.others address old now, ← mem_iff_lookup] at present
        have shown := still present
        have other : t ≠ label.1 := fun same => old (same ▸ sound.shown t address shown)
        rw [State.exposedText, set_other other]
        exact shown
    · obtain rfl := List.mem_singleton.mp last
      exact ⟨heap.fresh address (sound'.held t address (sound'.shown t address exposed)), fun _ => exposed⟩

theorem run_told (run : Run Step .start steps s) : s.Sound ∧ s.Told steps := by
  induction run with
  | nil => exact ⟨start_sound, fun _ => ⟨rfl, rfl⟩, fun _ member => absurd member List.not_mem_nil⟩
  | snoc _ step ih => exact step.keeps ih.1 ih.2

/-- In every interleaving each thread is shown, through the pointer that it was given, the
last error that it had itself when it asked for the pointer, or an empty text for one with a
NUL, whatever other threads do. A text can be read until the thread asks again or ends, no
string is freed twice or used after that, and none is left behind. -/
theorem last_error_own (steps : Steps) (s : State) (run : Run Step .start steps s) :
    (∀ t, s.exposed t = (seen t steps).shown) ∧
    (∀ taken ∈ steps, ∀ t address, taken.label = (t, .gets) → taken.after.exposedText t = some address →
      (address ∈ s.heap.blocks ↔ s.exposedText t = some address)) ∧
    (∀ t action, (action = .exits → s.slots t ≠ none) → ∃ s', Step s (t, action) s') ∧
    ∀ address ∈ s.heap.blocks, ∃ t r, s.slots t = some r ∧ r.cString = address := by
  obtain ⟨sound, told⟩ := run_told run
  refine ⟨fun t => (told.agrees t).1, fun taken member t address asked exposed => ?_, fun t action possible => ?_,
    fun address present => ?_⟩
  · exact ⟨(told.stale taken member t address asked exposed).2, fun shown =>
      sound.held t address (sound.shown t address shown)⟩
  · obtain ⟨heap, slot, act⟩ := acts sound (told.agrees t) action possible
    exact ⟨_, act.step⟩
  · obtain ⟨t, has⟩ := sound.only address present
    obtain ⟨r, found, same⟩ := Option.map_eq_some_iff.mp has
    exact ⟨t, r, found, same⟩

end Runs

theorem run_goes {steps : Steps} {s : State} (run : Run Step .start steps s) (t : Nat) (action : Action)
    (stays : action ≠ .exits) : ∃ s', Step s (t, action) s' := by
  obtain ⟨sound, told⟩ := run_told run
  obtain ⟨heap, slot, act⟩ := acts sound (told.agrees t) action (absurd · stays)
  exact ⟨_, act.step⟩

theorem slot_of_exposed {s : State} {t : Nat} {shown : Int × CText} (exposed : s.exposed t = some shown) :
    s.slots t ≠ none := by
  intro none_
  simp [State.exposed, none_] at exposed

theorem exposedText_of_exposed {s : State} {t : Nat} {shown : Int × CText} (exposed : s.exposed t = some shown) :
    ∃ address, s.exposedText t = some address := by
  cases found : s.slots t with
  | none => exact absurd found (slot_of_exposed exposed)
  | some r =>
      cases msg : r.exposedError.msg with
      | none => simp [State.exposed, found, msg] at exposed
      | some address => exact ⟨address, by simp [State.exposedText, found, msg]⟩

theorem exposed_of_exposedText {s : State} {t address : Nat} (shown : s.exposedText t = some address)
    (present : address ∈ s.heap.blocks) : s.exposed t ≠ none := by
  obtain ⟨r, found, msg⟩ := Option.bind_eq_some_iff.mp shown
  obtain ⟨text, held⟩ := Option.ne_none_iff_exists'.mp (mem_iff_lookup.mp present)
  simp [State.exposed, found, msg, held]

/-- Two threads fail, one of them with a text that no C string can hold, and ask.  The first
one fails and asks again, and the other one ends, with whose end its string goes. -/
theorem last_error_own_sample : ∃ steps s, Run Step .start steps s ∧
    steps.map (fun taken => taken.label) = [(0, .fails 0 ['a']), (1, .fails 1 [nul]), (0, .gets), (1, .gets),
      (0, .fails 2 ['b']), (0, .gets), (1, .exits)] ∧
    (∃ taken ∈ steps, taken.after.exposed 0 = some (0, utf8Bytes ['a']) ∧ taken.after.exposed 1 = some (1, [])) ∧
    s.exposed 0 = some (2, utf8Bytes ['b']) ∧ s.exposed 1 = none ∧
    ∃ taken ∈ steps, ∃ address, taken.after.exposedText 1 = some address ∧ address ∉ s.heap.blocks := by
  have plain : ∀ c, nul ∉ [c] → orDefault [c] = utf8Bytes [c] := by
    intro c nonzero
    rw [orDefault, CText.new_iff.mpr ⟨nonzero, rfl⟩]
  have start : Run Step .start [] .start := .nil
  obtain ⟨_, first⟩ := run_goes start 0 (.fails 0 ['a']) nofun
  have one := start.snoc first
  obtain ⟨_, second⟩ := run_goes one 1 (.fails 1 [nul]) nofun
  have two := one.snoc second
  obtain ⟨middle, third⟩ := run_goes two 0 .gets nofun
  have three := two.snoc third
  obtain ⟨s, fourth⟩ := run_goes three 1 .gets nofun
  have four := three.snoc fourth
  have zero : s.exposed 0 = some (0, orDefault ['a']) := (last_error_own _ _ four).1 0
  have other : s.exposed 1 = some (1, []) := (last_error_own _ _ four).1 1
  obtain ⟨address, shown⟩ := exposedText_of_exposed other
  obtain ⟨_, fifth⟩ := run_goes four 0 (.fails 2 ['b']) nofun
  have five := four.snoc fifth
  obtain ⟨_, sixth⟩ := run_goes five 0 .gets nofun
  have six := five.snoc sixth
  obtain ⟨others, -, goes, -⟩ := last_error_own _ _ six
  have still : State.exposed _ 1 = some (1, []) := others 1
  obtain ⟨s', seventh⟩ := goes 1 .exits fun _ => slot_of_exposed still
  have seven := six.snoc seventh
  obtain ⟨exposed, stale, -⟩ := last_error_own _ _ seven
  have again : s'.exposed 0 = some (2, orDefault ['b']) := exposed 0
  have ended : s'.exposed 1 = none := exposed 1
  rw [plain _ (by decide)] at zero again
  have asked : ∀ before after after' after'' : Steps,
      ⟨middle, (1, .gets), s⟩ ∈ before ++ [⟨middle, (1, .gets), s⟩] ++ after ++ after' ++ after'' := by simp
  refine ⟨_, s', seven, rfl, ⟨_, asked _ _ _ _, zero, other⟩, again, ended, _, asked _ _ _ _, address, shown,
    fun present => ?_⟩
  have kept := (stale _ (asked _ _ _ _) 1 address rfl shown).mp present
  exact exposed_of_exposedText kept present ended

end Eafcc.Ffi.LastError
