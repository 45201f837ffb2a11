import Eafcc.CfgCenter.Deadlock

namespace Eafcc.CfgCenter

open Eafcc.Model Eafcc.Storage Transition

/-! # Panics that poison the mutexes

A thread that panics drops its guards while it unwinds, which poisons their
mutexes.  A poisoned mutex is acquired as before, but its guard comes as an
error, and is dropped when the call returns.
-/

variable {Pri : Type} {crates : Crates Pri}

/-- A thread that may be on its way out of a call, with the guards that it has
still to drop in their order. -/
inductive PoisonThread (Pri : Type) where
  | running (thread : Thread Pri)
  | refused (guards : List Mutex) (error : Option CCLibError)
  | unwinding (guards : List Mutex)

inductive PoisonAction (crates : Crates Pri) where
  | run (action : Action crates)
  | refuse (mutex : Mutex)
  | drop (mutex : Mutex)
  | return_ (error : Option CCLibError)
  | panic
  | poison (mutex : Mutex)
  | unwound

/-- Loading a namespace panics with some files. -/
def LoadPanics (crates : Crates Pri) (ns : Str) (version : VersionItem) : Prop :=
  ∃ backend fuel, MemStorage.new crates backend fuel ns version = some Rust.panics

/-- A callback that is called and does not return. -/
def NamespaceScopedCFGCenter.callbackPanics (handle : NamespaceScopedCFGCenter Pri)
    (newMemStore : MemStorage Pri) (changes : List Str) : NamespaceScopedCFGCenter Pri :=
  let differ : Differ Pri :=
    { notifyLevel := handle.notifyLevel, oldMemStore := handle.currentMemstore, newMemStore
      changedFiles := changes }
  { handle with called := handle.called ++ [differ] }

def CFGCenterInner.callbackPanics (center : CFGCenterInner Pri) (id : Nat) (newMemStore : MemStorage Pri)
    (changes : List Str) : CFGCenterInner Pri where
  handles := center.handles.modify id fun handle => handle.callbackPanics newMemStore changes
  namespaces := center.namespaces
  currentVersion := center.currentVersion
  filed ns other found := by
    obtain ⟨handle, stored, named⟩ := center.filed ns other found
    simp only [List.getElem?_modify, stored]
    by_cases same : id = other
    · exact ⟨handle.callbackPanics newMemStore changes, by simp [same], named⟩
    · exact ⟨handle, by simp [same], named⟩

def internalLockError : CCLibError := .namespaceError "get internal lock error".toList

def lockError : CCLibError := .namespaceError "get lock error".toList

/-- The control flow of a thread that may panic and may find a mutex poisoned. -/
inductive PoisonMoves (crates : Crates Pri) (poisoned : Mutex → Bool) (center : CFGCenterInner Pri) :
    PoisonThread Pri → PoisonAction crates → PoisonThread Pri → CFGCenterInner Pri → Prop
  | run {thread next : Thread Pri} {action : Action crates} {center' : CFGCenterInner Pri} :
      Moves crates center thread action next center' →
      (∀ mutex, action = .acquire mutex → poisoned mutex = false) →
      PoisonMoves crates poisoned center (.running thread) (.run action) (.running next) center'
  | getRefused {ns : Str} :
      poisoned .namespaces = true →
      PoisonMoves crates poisoned center (.running (.get ns)) (.refuse .namespaces)
        (.refused [.namespaces] (some lockError)) center
  | createRefused {ns : Str} {level : UpdateNotifyLevel} {callback : Bool} :
      poisoned .currentVersion = true →
      PoisonMoves crates poisoned center (.running (.create ns level callback))
        (.refuse .currentVersion) (.refused [.currentVersion] (some internalLockError)) center
  | insertRefused {handle : NamespaceScopedCFGCenter Pri} :
      poisoned .namespaces = true →
      PoisonMoves crates poisoned center (.running (.createLock handle)) (.refuse .namespaces)
        (.refused [.namespaces, .currentVersion] (some lockError)) center
  | updateRefused {e : StorageChangeEvent} :
      poisoned .namespaces = true →
      PoisonMoves crates poisoned center (.running (.update e)) (.refuse .namespaces)
        (.refused [.namespaces] none) center
  | versionRefused {e : StorageChangeEvent} :
      poisoned .currentVersion = true →
      PoisonMoves crates poisoned center (.running (.updateLock e)) (.refuse .currentVersion)
        (.refused [.currentVersion, .namespaces] none) center
  | drop {mutex : Mutex} {guards : List Mutex} {error : Option CCLibError} :
      PoisonMoves crates poisoned center (.refused (mutex :: guards) error) (.drop mutex)
        (.refused guards error) center
  | return_ {error : Option CCLibError} :
      PoisonMoves crates poisoned center (.refused [] error) (.return_ error) (.running .idle) center
  | createPanics {ns : Str} {level : UpdateNotifyLevel} {callback : Bool} :
      LoadPanics crates ns center.currentVersion →
      PoisonMoves crates poisoned center (.running (.createLoad ns level callback)) .panic
        (.unwinding [.currentVersion]) center
  -- The backend's list of changed files is not empty where the level asks for it.
  | updatePanics {e : StorageChangeEvent} {ns : Str} {id : Nat} {rest : List (Str × Nat)}
      {handle : NamespaceScopedCFGCenter Pri} :
      center.handles[id]? = some handle → handle.notifyLevel ≠ .noNotify →
      LoadPanics crates ns e.newVersion →
      PoisonMoves crates poisoned center (.running (.updateLoop e ((ns, id) :: rest))) .panic
        (.unwinding [.currentVersion, .namespaces]) center
  | callbackPanics {e : StorageChangeEvent} {ns : Str} {id : Nat} {rest : List (Str × Nat)}
      {handle : NamespaceScopedCFGCenter Pri} {newMemStore : MemStorage Pri} {changes : List Str} :
      center.handles[id]? = some handle → handle.notifyLevel = .notifyWithoutChangedKeysByGlobal →
      handle.callback = true →
      PoisonMoves crates poisoned center
        (.running (.updateInstall e (ns, id) newMemStore changes rest)) .panic
        (.unwinding [.currentVersion, .namespaces]) (center.callbackPanics id newMemStore changes)
  | poison {mutex : Mutex} {guards : List Mutex} :
      PoisonMoves crates poisoned center (.unwinding (mutex :: guards)) (.poison mutex)
        (.unwinding guards) center
  | unwound : PoisonMoves crates poisoned center (.unwinding []) .unwound (.running .idle) center

structure PoisonState (Pri : Type) where
  center : CFGCenterInner Pri
  holder : Mutex → Option Nat
  poisoned : Mutex → Bool
  threads : Nat → PoisonThread Pri

def PoisonState.start (version : VersionItem) : PoisonState Pri :=
  { center := .new version, holder := fun _ => none, poisoned := fun _ => false
    threads := fun _ => .running .idle }

namespace PoisonAction

def acquires : PoisonAction crates → Option Mutex
  | .run (.acquire mutex) => some mutex
  | .refuse mutex => some mutex
  | _ => none

def releases : PoisonAction crates → Option Mutex
  | .run (.release mutex) => some mutex
  | .drop mutex => some mutex
  | .poison mutex => some mutex
  | _ => none

def relock (t : Nat) (holder : Mutex → Option Nat) (action : PoisonAction crates) : Mutex → Option Nat :=
  match action.acquires, action.releases with
  | some mutex, _ => Function.update holder mutex (some t)
  | none, some mutex => Function.update holder mutex none
  | none, none => holder

def poisons (poisoned : Mutex → Bool) : PoisonAction crates → Mutex → Bool
  | .poison mutex => Function.update poisoned mutex true
  | _ => poisoned

end PoisonAction

/-- A step of one thread. -/
inductive PoisonStep (crates : Crates Pri) :
    PoisonState Pri → Nat × PoisonAction crates → PoisonState Pri → Prop
  | step {s : PoisonState Pri} {t : Nat} {action : PoisonAction crates} {next : PoisonThread Pri}
      {center : CFGCenterInner Pri} :
      PoisonMoves crates s.poisoned s.center (s.threads t) action next center →
      (∀ mutex, action.acquires = some mutex → s.holder mutex = none) →
      PoisonStep crates s (t, action)
        { center, holder := action.relock t s.holder, poisoned := action.poisons s.poisoned
          threads := Function.update s.threads t next }

/-! ## Who holds the mutexes -/

def PoisonThread.holds : PoisonThread Pri → Mutex → Bool
  | .running thread, mutex => thread.holds mutex
  | .refused guards _, mutex => guards.contains mutex
  | .unwinding guards, mutex => guards.contains mutex

/-- The guards of a thread that leaves a call, once each. A refusal means that
the mutex of the version was poisoned, and a panic happens inside its guard. -/
def PoisonThread.Tidy (poisoned : Mutex → Bool) : PoisonThread Pri → Prop
  | .running thread => poisoned .currentVersion = true → thread.holds .currentVersion = false
  | .refused guards _ => guards.Nodup ∧ poisoned .currentVersion = true
  | .unwinding guards =>
      guards.Nodup ∧ (guards.head? = some .currentVersion ∨ poisoned .currentVersion = true)

def PoisonThread.Working (crates : Crates Pri) (center : CFGCenterInner Pri) : PoisonThread Pri → Prop
  | .running thread => thread.Working crates center
  | _ => True

def PoisonState.Locked (s : PoisonState Pri) : Prop :=
  ∀ mutex t, s.holder mutex = some t ↔ (s.threads t).holds mutex = true

/-- What holds in every state that threads reach, whatever panics. -/
structure PoisonState.Valid (crates : Crates Pri) (s : PoisonState Pri) : Prop where
  locked : s.Locked
  tidy : ∀ t, (s.threads t).Tidy s.poisoned
  working : ∀ t, (s.threads t).Working crates s.center
  versionFirst : s.poisoned .namespaces = true → s.poisoned .currentVersion = true

variable {center center' : CFGCenterInner Pri} {thread next : PoisonThread Pri}
  {action : PoisonAction crates} {poisoned : Mutex → Bool} {s s' : PoisonState Pri} {t u : Nat}
  {mutex : Mutex}

theorem PoisonMoves.holds (moves : PoisonMoves crates poisoned center thread action next center')
    (tidy : thread.Tidy poisoned) (mutex : Mutex) :
    next.holds mutex =
      (action.acquires == some mutex || thread.holds mutex && action.releases != some mutex) := by
  cases moves with
  | @run thread next action center' moves clean =>
      simp only [PoisonThread.holds, moves.holds mutex]
      cases action <;> cases mutex <;> simp [PoisonAction.acquires, PoisonAction.releases] <;> grind
  | @drop dropped guards error =>
      have fresh := (List.nodup_cons.mp tidy.1).1
      cases mutex <;> cases dropped <;>
        simp [PoisonThread.holds, PoisonAction.acquires, PoisonAction.releases, fresh]
  | @poison dropped guards =>
      have fresh := (List.nodup_cons.mp tidy.1).1
      cases mutex <;> cases dropped <;>
        simp [PoisonThread.holds, PoisonAction.acquires, PoisonAction.releases, fresh]
  | _ => cases mutex <;> rfl

theorem PoisonMoves.released (moves : PoisonMoves crates poisoned center thread action next center')
    (releases : action.releases = some mutex) : thread.holds mutex = true := by
  cases moves with
  | @run thread next action center' moves clean =>
      cases action with
      | release released =>
          cases releases
          exact moves.released
      | _ => cases releases
  | drop | poison =>
      cases releases
      simp [PoisonThread.holds]
  | _ => cases releases

theorem PoisonState.Locked.unique (locked : s.Locked) (first : (s.threads t).holds mutex = true)
    (second : (s.threads u).holds mutex = true) : t = u := by
  rw [← locked mutex] at first second
  simpa [first] using second

theorem PoisonState.start_valid (crates : Crates Pri) (version : VersionItem) :
    (PoisonState.start version).Valid crates where
  locked mutex t := by simp [start, PoisonThread.holds, Thread.holds]
  tidy t := by simp [start, PoisonThread.Tidy]
  working t := trivial
  versionFirst poisoned := poisoned

/-! ## What every step keeps -/

theorem PoisonAction.relock_eq_some (action : PoisonAction crates) {holder : Mutex → Option Nat} :
    action.relock t holder mutex = some u ↔
      if action.acquires = some mutex then u = t
      else if action.acquires = none ∧ action.releases = some mutex then False
      else holder mutex = some u := by
  unfold PoisonAction.relock
  cases acquired : action.acquires with
  | some taken =>
      by_cases same : mutex = taken
      · simp [same, eq_comm]
      · simp [same, Ne.symm same]
  | none =>
      cases released : action.releases with
      | none => simp
      | some given =>
          by_cases same : mutex = given
          · simp [same]
          · simp [same, Ne.symm same]

theorem PoisonAction.acquires_or_releases (action : PoisonAction crates) :
    action.acquires = none ∨ action.releases = none := by
  cases action with
  | run action => cases action <;> simp [acquires, releases]
  | _ => simp [acquires, releases]

theorem PoisonAction.poisons_of {mutex : Mutex} (action : PoisonAction crates)
    (already : poisoned mutex = true) : action.poisons poisoned mutex = true := by
  cases action with
  | poison other =>
      by_cases same : mutex = other
      · simp [poisons, same]
      · simpa [poisons, same] using already
  | _ => exact already

theorem PoisonAction.of_poisons {mutex : Mutex} {action : PoisonAction crates}
    (now : action.poisons poisoned mutex = true) :
    poisoned mutex = true ∨ action = .poison mutex := by
  cases action with
  | poison other =>
      by_cases same : mutex = other
      · exact .inr (by rw [same])
      · exact .inl (by simpa [poisons, same] using now)
  | _ => exact .inl now

theorem PoisonMoves.tidy (moves : PoisonMoves crates poisoned center thread action next center')
    (tidy : thread.Tidy poisoned)
    (versionFirst : poisoned .namespaces = true → poisoned .currentVersion = true) :
    next.Tidy (action.poisons poisoned) := by
  cases moves with
  | @run thread next action center' moves clean =>
      intro broken
      have outside : thread.holds .currentVersion = false := tidy broken
      rw [moves.holds .currentVersion, outside]
      cases action with
      | acquire acquired =>
          have other : acquired ≠ .currentVersion := fun same => by
            simp [same ▸ clean acquired rfl, PoisonAction.poisons] at broken
          simpa using other.symm
      | _ => rfl
  | getRefused broken | insertRefused broken | updateRefused broken =>
      exact ⟨by decide, versionFirst broken⟩
  | createRefused broken | versionRefused broken => exact ⟨by decide, broken⟩
  | drop => exact ⟨(List.nodup_cons.mp tidy.1).2, tidy.2⟩
  | createPanics | updatePanics | callbackPanics => exact ⟨by decide, .inl rfl⟩
  | @poison mutex guards =>
      refine ⟨(List.nodup_cons.mp tidy.1).2, .inr ?_⟩
      rcases tidy.2 with first | broken
      · cases first
        simp [PoisonAction.poisons]
      · exact PoisonAction.poisons_of _ broken
  | return_ | unwound => exact fun _ => rfl

/-- Only a thread that holds the map of namespaces changes the center. -/
theorem PoisonMoves.center_eq (moves : PoisonMoves crates poisoned center thread action next center')
    (outside : thread.holds .namespaces = false) : center' = center := by
  cases moves with
  | run moves clean => exact moves.center_eq outside
  | callbackPanics => simp [PoisonThread.holds, Thread.holds] at outside
  | _ => rfl

theorem PoisonMoves.working (moves : PoisonMoves crates poisoned center thread action next center')
    (work : thread.Working crates center) : next.Working crates center' := by
  cases moves with
  | run moves clean => exact moves.working work
  | _ => trivial

theorem PoisonThread.working_outside (outside : thread.holds .namespaces = false) :
    thread.Working crates center := by
  cases thread with
  | running thread => exact Thread.working_outside outside
  | _ => trivial

theorem PoisonStep.locked {label : Nat × PoisonAction crates} (step : PoisonStep crates s label s')
    (valid : s.Valid crates) : s'.Locked := by
  intro mutex u
  cases step with
  | @step t action next center moves free =>
      have held := moves.holds (valid.tidy t) mutex
      rw [PoisonAction.relock_eq_some]
      by_cases acquired : action.acquires = some mutex
      · rw [if_pos acquired]
        by_cases own : u = t
        · simp [own, held, acquired]
        · have empty := free mutex acquired
          have apart : (s.threads u).holds mutex ≠ true := fun holds => by
            rw [← valid.locked mutex u, empty] at holds
            cases holds
          simp [own, apart]
      · rw [if_neg acquired]
        by_cases released : action.releases = some mutex
        · have here := moves.released released
          have silent : action.acquires = none := by
            rcases action.acquires_or_releases with none_ | none_
            · exact none_
            · simp [none_] at released
          rw [if_pos ⟨silent, released⟩, false_iff]
          by_cases own : u = t
          · simp [own, held, silent, released]
          · intro holds
            simp only [Function.update_of_ne own] at holds
            exact own (valid.locked.unique holds here)
        · have kept : ¬ (action.acquires = none ∧ action.releases = some mutex) := fun both => released both.2
          rw [if_neg kept, valid.locked mutex u]
          by_cases own : u = t
          · simp [own, held, acquired, released]
          · simp [own]

theorem PoisonStep.valid {label : Nat × PoisonAction crates} (step : PoisonStep crates s label s')
    (valid : s.Valid crates) : s'.Valid crates := by
  have locked := step.locked valid
  cases step with
  | @step t action next center moves free =>
      refine ⟨locked, fun u => ?_, fun u => ?_, fun broken => ?_⟩
      · by_cases own : u = t
        · simpa [own] using moves.tidy (valid.tidy t) valid.versionFirst
        · simp only [Function.update_of_ne own]
          have before := valid.tidy u
          cases other : s.threads u with
          | refused guards error =>
              rw [other] at before
              exact ⟨before.1, action.poisons_of before.2⟩
          | unwinding guards =>
              rw [other] at before
              exact ⟨before.1, before.2.imp_right action.poisons_of⟩
          | running thread =>
              intro broken
              rcases PoisonAction.of_poisons broken with already | poisons
              · rw [other] at before
                exact before already
              · -- The thread that poisons the mutex holds it.
                have here : (s.threads t).holds .currentVersion = true :=
                  moves.released (by rw [poisons]; rfl)
                refine Bool.eq_false_iff.mpr fun holds => own ?_
                exact valid.locked.unique (by rw [other]; exact holds) here
      · by_cases own : u = t
        · simpa [own] using moves.working (valid.working t)
        · simp only [Function.update_of_ne own]
          cases inside : (s.threads u).holds .namespaces with
          | false => exact PoisonThread.working_outside inside
          | true =>
              have outside : (s.threads t).holds .namespaces = false :=
                Bool.eq_false_iff.mpr fun held => own (valid.locked.unique inside held)
              rw [moves.center_eq outside]
              exact valid.working u
      · rcases PoisonAction.of_poisons broken with already | poisons
        · exact action.poisons_of (valid.versionFirst already)
        · subst poisons
          have tidy := valid.tidy t
          generalize s.threads t = thread at moves tidy
          have already : s.poisoned .currentVersion = true := by
            cases moves with
            | poison =>
                rcases tidy.2 with first | already
                · cases first
                · exact already
          exact (PoisonAction.poison .namespaces : PoisonAction crates).poisons_of already

/-! ## Runs without panics -/

/-- A state in which nothing has panicked. -/
def State.unpoisoned (s : State Pri) : PoisonState Pri :=
  { center := s.center, holder := s.holder, poisoned := fun _ => false
    threads := fun t => .running (s.threads t) }

def unpoisonedStep (taken : Taken (State Pri) (Nat × Action crates)) :
    Taken (PoisonState Pri) (Nat × PoisonAction crates) :=
  ⟨taken.before.unpoisoned, (taken.label.1, .run taken.label.2), taken.after.unpoisoned⟩

theorem permitted_iff {action : Action crates} {holder : Mutex → Option Nat} :
    action.Permitted holder ↔
      ∀ mutex, (PoisonAction.run action).acquires = some mutex → holder mutex = none := by
  cases action <;> simp [Action.Permitted, PoisonAction.acquires]

theorem relock_run {action : Action crates} {holder : Mutex → Option Nat} :
    (PoisonAction.run action).relock t holder = action.relock t holder := by
  cases action <;> rfl

theorem unpoisoned_step {s : State Pri} {action : Action crates} {thread : Thread Pri}
    {center : CFGCenterInner Pri} :
    ({ center, holder := (PoisonAction.run action).relock t s.unpoisoned.holder
       poisoned := (PoisonAction.run action).poisons s.unpoisoned.poisoned
       threads := Function.update s.unpoisoned.threads t (.running thread) } : PoisonState Pri) =
      ({ center, holder := action.relock t s.holder
         threads := Function.update s.threads t thread } : State Pri).unpoisoned := by
  have threads : Function.update s.unpoisoned.threads t (.running thread) =
      fun u => .running (Function.update s.threads t thread u) := by
    funext u
    by_cases own : u = t <;> simp [own, State.unpoisoned]
  rw [threads, relock_run]
  rfl

theorem Step.unpoisoned {s s' : State Pri} {label : Nat × Action crates} (step : Step crates s label s') :
    PoisonStep crates s.unpoisoned (label.1, .run label.2) s'.unpoisoned := by
  cases step with
  | run moves permitted =>
      rw [← unpoisoned_step]
      exact .step (.run moves fun _ _ => rfl) (permitted_iff.mp permitted)

/-- Runs of threads are runs in which nothing panics. -/
theorem run_unpoisoned {version : VersionItem} {steps : List (Taken (State Pri) (Nat × Action crates))}
    {s : State Pri} (run : Run (Step crates) (.start version) steps s) :
    Run (PoisonStep crates) (.start version) (steps.map unpoisonedStep) s.unpoisoned := by
  induction run with
  | nil => exact .nil
  | snoc earlier taken ih =>
      rw [List.map_append]
      exact ih.snoc taken.unpoisoned

/-- Where nothing panics, a run is one of threads that cannot panic. -/
theorem run_without_panic {version : VersionItem} {steps : List (Taken (PoisonState Pri) (Nat × PoisonAction crates))}
    (run : Run (PoisonStep crates) (.start version) steps s)
    (calm : ∀ taken ∈ steps, taken.label.2 ≠ .panic) :
    ∃ plain s₀, Run (Step crates) (.start version) plain s₀ ∧ steps = plain.map unpoisonedStep ∧
      s = s₀.unpoisoned := by
  induction run with
  | nil => exact ⟨[], .start version, .nil, rfl, rfl⟩
  | @snoc steps state next label earlier step ih =>
      simp only [List.forall_mem_append, List.forall_mem_singleton] at calm
      obtain ⟨plain, s₀, run, rfl, rfl⟩ := ih calm.1
      obtain ⟨t, action⟩ := label
      have taken : ∃ inner s₁, action = .run inner ∧ Step crates s₀ (t, inner) s₁ ∧
          next = s₁.unpoisoned := by
        cases step with
        | step moves free =>
            have here : s₀.unpoisoned.threads t = .running (s₀.threads t) := rfl
            rw [here] at moves
            generalize standing : s₀.threads t = thread at moves
            cases moves with
            | run inner clean =>
                rw [← standing] at inner
                exact ⟨_, _, rfl, .run inner (permitted_iff.mpr free), unpoisoned_step⟩
            | getRefused poisoned | createRefused poisoned | insertRefused poisoned
            | updateRefused poisoned | versionRefused poisoned => cases poisoned
            | createPanics | updatePanics | callbackPanics => exact absurd rfl calm.2
      obtain ⟨inner, s₁, rfl, step', rfl⟩ := taken
      exact ⟨_, s₁, run.snoc step', by simp [unpoisonedStep], rfl⟩

/-! ## After a panic -/

/-- The mutex of the version is poisoned, or its guard is about to be dropped by a
thread that panicked. -/
def PoisonState.Broken (s : PoisonState Pri) : Prop :=
  s.poisoned .currentVersion = true ∨
    ∃ t guards, s.threads t = .unwinding (.currentVersion :: guards)

/-- A step that neither gets at the version nor does anything that needs it. -/
def PoisonAction.Passive : PoisonAction crates → Prop
  | .run (.call _) => True
  | .run (.acquire mutex) => mutex = .namespaces
  | .run (.release mutex) => mutex = .namespaces
  | .run _ => False
  | .panic => False
  | _ => True

/-- What a thread that asks for a lock goes on with once a thread has panicked. -/
def PoisonThread.After (center : CFGCenterInner Pri) (poisoned : Mutex → Bool) :
    PoisonThread Pri → PoisonThread Pri → Prop
  | .running (.get ns), next =>
      next = .running (.getReturn (center.getNamespaceScopedCfgCenter ns)) ∨
        poisoned .namespaces = true ∧ next = .refused [.namespaces] (some lockError)
  | .running (.create ..), next => next = .refused [.currentVersion] (some internalLockError)
  | .running (.createLock _), _ => False
  | .running (.updateLock _), next => next = .refused [.currentVersion, .namespaces] none
  | _, _ => True

theorem PoisonState.Broken.outside (broken : s.Broken) (valid : s.Valid crates) {thread : Thread Pri}
    (here : s.threads t = .running thread) : thread.holds .currentVersion = false := by
  rcases broken with poisoned | ⟨u, guards, unwinds⟩
  · have tidy := valid.tidy t
    rw [here] at tidy
    exact tidy poisoned
  · refine Bool.eq_false_iff.mpr fun holds => ?_
    have same : t = u := valid.locked.unique (by rw [here]; exact holds)
      (by rw [unwinds]; simp [PoisonThread.holds])
    rw [same, unwinds] at here
    cases here

/-- Where the version can be locked, its mutex is poisoned. -/
theorem PoisonState.Broken.closed (broken : s.Broken) (valid : s.Valid crates)
    (free : s.holder .currentVersion = none) : s.poisoned .currentVersion = true := by
  rcases broken with poisoned | ⟨u, guards, unwinds⟩
  · exact poisoned
  · have held := (valid.locked .currentVersion u).mpr (by rw [unwinds]; simp [PoisonThread.holds])
    simp [free] at held

theorem Moves.passive {thread next : Thread Pri} {action : Action crates}
    (moves : Moves crates center thread action next center')
    (outside : thread.holds .currentVersion = false) (elsewhere : action ≠ .acquire .currentVersion) :
    center' = center ∧ (PoisonAction.run action).Passive := by
  cases moves with
  | create | updateLock => contradiction
  | callGet | getLock | getReturn | callRefused | callCreate | callUpdate | update | updateReturn =>
      exact ⟨rfl, by trivial⟩
  | createLock => cases outside
  | createUnlock | createFail | createLoad | createInsert | createReturn | updateSkip | updateLoad
  | updateInstall | updateEnd | updateUnlock => cases outside

theorem PoisonStep.broken {label : Nat × PoisonAction crates} (step : PoisonStep crates s label s')
    (broken : s.Broken) : s'.Broken := by
  cases step with
  | @step t action next center moves free =>
      rcases broken with poisoned | ⟨u, guards, unwinds⟩
      · exact .inl (action.poisons_of poisoned)
      · by_cases own : u = t
        · subst own
          rw [unwinds] at moves
          cases moves
          exact .inl (by simp [PoisonAction.poisons])
        · exact .inr ⟨u, guards, by simpa [own] using unwinds⟩

theorem PoisonStep.frozen {label : Nat × PoisonAction crates} (step : PoisonStep crates s label s')
    (valid : s.Valid crates) (broken : s.Broken) :
    s'.center = s.center ∧ label.2.Passive ∧
      (s.threads label.1).After s.center s.poisoned (s'.threads label.1) := by
  cases step with
  | @step t action next center moves free =>
      have outside : ∀ thread, s.threads t = .running thread → thread.holds .currentVersion = false :=
        fun thread here => broken.outside valid here
      simp only [Function.update_self]
      generalize s.threads t = thread at moves outside
      cases moves with
      | @run thread next action center' moves clean =>
          have elsewhere : action ≠ .acquire .currentVersion := by
            intro acquires
            subst acquires
            have poisoned := broken.closed valid (free .currentVersion rfl)
            simp [clean .currentVersion rfl] at poisoned
          obtain ⟨same, passive⟩ := moves.passive (outside thread rfl) elsewhere
          refine ⟨same, passive, ?_⟩
          cases moves with
          | getLock => exact .inl rfl
          | create | updateLock => contradiction
          | createLock => cases outside _ rfl
          | _ => trivial
      | getRefused poisoned => exact ⟨rfl, trivial, .inr ⟨poisoned, rfl⟩⟩
      | createRefused | versionRefused => exact ⟨rfl, trivial, rfl⟩
      | insertRefused | createPanics | updatePanics | callbackPanics => cases outside _ rfl
      | updateRefused | drop | return_ | poison | unwound => exact ⟨rfl, trivial, trivial⟩

theorem PoisonStep.breaks {label : Nat × PoisonAction crates} (step : PoisonStep crates s label s')
    (panics : label.2 = .panic) : s'.Broken := by
  cases step with
  | @step t action next center moves free =>
      cases panics
      refine .inr ⟨t, ?_⟩
      simp only [Function.update_self]
      generalize s.threads t = thread at moves
      cases moves with
      | createPanics | updatePanics | callbackPanics => exact ⟨_, rfl⟩

abbrev PoisonSteps (crates : Crates Pri) := List (Taken (PoisonState Pri) (Nat × PoisonAction crates))

theorem PoisonStep.run_valid {steps : PoisonSteps crates} {version : VersionItem}
    (run : Run (PoisonStep crates) (.start version) steps s) : s.Valid crates :=
  run.invariant (PoisonState.start_valid crates version) fun _ _ _ valid step => step.valid valid

/-- The first panic of a load or of a callback is the last one, and freezes the
center: whatever the threads do after it, no namespace is created, loaded or
updated any more.  After a panic in the load of a create the map is not poisoned,
and lookups go on to succeed. -/
theorem panic_freezes_center (crates : Crates Pri) (version : VersionItem)
    (before after : PoisonSteps crates) (taken : Taken (PoisonState Pri) (Nat × PoisonAction crates))
    (s : PoisonState Pri)
    (run : Run (PoisonStep crates) (.start version) (before ++ taken :: after) s)
    (panics : taken.label.2 = .panic) :
    ∀ later ∈ after, later.after.center = taken.after.center ∧ later.label.2.Passive ∧
      (later.before.threads later.label.1).After taken.after.center later.before.poisoned
        (later.after.threads later.label.1) := by
  obtain ⟨earlier, step, more⟩ := run.split_at
  have valid := step.valid (PoisonStep.run_valid earlier)
  let Inv : PoisonState Pri → Prop := fun s =>
    s.Valid crates ∧ s.Broken ∧ s.center = taken.after.center
  have init : Inv taken.after := ⟨valid, step.breaks panics, rfl⟩
  have whole := more.forall_of Inv (H := fun _ => True)
    (P := fun later => later.after.center = taken.after.center ∧ later.label.2.Passive ∧
      (later.before.threads later.label.1).After taken.after.center later.before.poisoned
        (later.after.threads later.label.1))
    (fun _ _ => trivial) init
    (fun state label next inv step _ =>
      ⟨step.valid inv.1, step.broken inv.2.1, (step.frozen inv.1 inv.2.1).1.trans inv.2.2⟩)
    (fun state label next inv step _ => by
      obtain ⟨same, passive, goes⟩ := step.frozen inv.1 inv.2.1
      rw [inv.2.2] at same goes
      exact ⟨same, passive, goes⟩)
  exact whole.2

/-! ### A callback that panics -/

/-- What an update loads for its only namespace. -/
def sampleLoaded : MemStorage Nat := { version := sampleEvent.newVersion, indices := .empty }

def sampleCalling : Thread Nat := .updateInstall sampleEvent (['/'], 0) sampleLoaded [] []

/-- An update up to the call of the callback. -/
theorem sample_calls : ∃ steps s, Run (Step sampleCrates) (.start sampleVersion) steps s ∧
    s.center = sampleCreated ∧ s.threads 0 = sampleCalling := by
  have created := create_goes (.start sampleVersion) 0 sampleAnswers (.new sampleVersion) ['/']
    .notifyWithoutChangedKeysByGlobal true
  have start : Goes sampleCrates (.start sampleVersion) 0 .idle (holders none none) sampleCreated
      .idle (holders none none) sampleCreated := .refl
  have entered := ((start.step (.callUpdate (e := sampleEvent)) trivial rfl).step .update rfl
    (acquire_namespaces _ _)).step (.updateLock sampleCreated_iteration) rfl (acquire_currentVersion _ _)
  have loads : Moves sampleCrates sampleCreated (.updateLoop sampleEvent [(['/'], 0)])
      (.load ['/'] 0 sampleEvent sampleAnswers) sampleCalling sampleCreated := .updateLoad rfl rfl
  obtain ⟨steps, run⟩ := created.trans (entered.step loads trivial rfl)
  rw [State.start_alone] at run
  exact ⟨steps, _, run, rfl, by simp [State.alone]⟩

/-- The callback panics, and its thread begins to unwind. -/
theorem sample_panics : ∃ before, ∃ taken : Taken (PoisonState Nat) (Nat × PoisonAction sampleCrates),
    ∃ s, Run (PoisonStep sampleCrates) (.start sampleVersion) (before ++ [taken]) s ∧
      taken.label.2 = .panic ∧ s.threads 0 = .unwinding [.currentVersion, .namespaces] := by
  obtain ⟨steps, s, run, center, calling⟩ := sample_calls
  have stored : s.center.handles[0]? = some (.new ['/'] { version := sampleVersion, indices := .empty }
      .notifyWithoutChangedKeysByGlobal true) := by
    rw [center]
    rfl
  have panics : PoisonMoves sampleCrates s.unpoisoned.poisoned s.center (.running sampleCalling) .panic
      (.unwinding [.currentVersion, .namespaces]) (s.center.callbackPanics 0 sampleLoaded []) :=
    .callbackPanics stored rfl rfl
  rw [← calling] at panics
  exact ⟨_, _, _, (run_unpoisoned run).snoc (.step (t := 0) panics (by simp [PoisonAction.acquires])), rfl,
    by simp⟩

theorem panic_freezes_center_sample : ∃ before taken after s,
    Run (PoisonStep sampleCrates) (.start sampleVersion) (before ++ taken :: after) s ∧
    taken.label.2 = .panic ∧ after.length = 1 ∧
    ∀ later ∈ after, later.after.center = taken.after.center ∧ later.label.2.Passive ∧
      (later.before.threads later.label.1).After taken.after.center later.before.poisoned
        (later.after.threads later.label.1) := by
  obtain ⟨before, taken, s, run, panics, unwinds⟩ := sample_panics
  have moves : PoisonMoves sampleCrates s.poisoned s.center (s.threads 0) (.poison .currentVersion)
      (.unwinding [.namespaces]) s.center := by
    rw [unwinds]
    exact .poison
  have more := run.snoc (.step moves (by simp [PoisonAction.acquires]))
  rw [List.append_assoc, List.singleton_append] at more
  exact ⟨_, _, _, _, more, panics, rfl,
    panic_freezes_center sampleCrates sampleVersion _ _ _ _ more panics⟩

end Eafcc.CfgCenter
