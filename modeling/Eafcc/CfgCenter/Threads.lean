import Eafcc.CfgCenter.Center
import Eafcc.Library.Run

namespace Eafcc.CfgCenter

open Eafcc.Model Eafcc.Storage

/-! # Threads that share a center

A thread runs one call after the other.  Between two of its steps any other
thread may take steps, and a guard is dropped at the end of its scope, the last
one declared first.
-/

variable {Pri : Type} {crates : Crates Pri}

inductive Mutex where
  | namespaces
  | currentVersion
deriving Repr, DecidableEq

inductive Call where
  | getNamespace (ns : Str)
  | createNamespace (ns : Str) (notifyLevel : UpdateNotifyLevel) (callback : Bool)
  | update (e : StorageChangeEvent)

/-- Where a thread stands in the call that it runs. -/
inductive Thread (Pri : Type) where
  | idle
  | get (ns : Str)
  | getReturn (result : Except CCLibError Nat)
  | create (ns : Str) (notifyLevel : UpdateNotifyLevel) (callback : Bool)
  | createLoad (ns : Str) (notifyLevel : UpdateNotifyLevel) (callback : Bool)
  | createLock (handle : NamespaceScopedCFGCenter Pri)
  | createInsert (handle : NamespaceScopedCFGCenter Pri)
  | createUnlock
  | createReturn
  | update (e : StorageChangeEvent)
  | updateLock (e : StorageChangeEvent)
  | updateLoop (e : StorageChangeEvent) (rest : List (Str × Nat))
  | updateInstall (e : StorageChangeEvent) (entry : Str × Nat) (newMemStore : MemStorage Pri)
      (changes : List Str) (rest : List (Str × Nat))
  | updateUnlock
  | updateReturn

inductive Action (crates : Crates Pri) where
  | call (call : Call)
  | acquire (mutex : Mutex)
  | release (mutex : Mutex)
  | createLoad (ns : Str) (answers : Answers crates)
  | insert (ns : Str) (id : Nat)
  | load (ns : Str) (id : Nat) (e : StorageChangeEvent) (answers : Answers crates)
  | install (ns : Str) (id : Nat) (e : StorageChangeEvent) (newMemStore : MemStorage Pri)
  | setVersion (version : VersionItem)

/-- The control flow of a thread, with what each step does to the center. -/
inductive Moves (crates : Crates Pri) (center : CFGCenterInner Pri) :
    Thread Pri → Action crates → Thread Pri → CFGCenterInner Pri → Prop
  | callGet {ns : Str} : Moves crates center .idle (.call (.getNamespace ns)) (.get ns) center
  | getLock {ns : Str} :
      Moves crates center (.get ns) (.acquire .namespaces)
        (.getReturn (center.getNamespaceScopedCfgCenter ns)) center
  | getReturn {result : Except CCLibError Nat} :
      Moves crates center (.getReturn result) (.release .namespaces) .idle center
  | callRefused {ns : Str} {level : UpdateNotifyLevel} {callback : Bool} :
      CFGCenterInner.validNamespace ns = false →
      Moves crates center .idle (.call (.createNamespace ns level callback)) .idle center
  | callCreate {ns : Str} {level : UpdateNotifyLevel} {callback : Bool} :
      CFGCenterInner.validNamespace ns = true →
      Moves crates center .idle (.call (.createNamespace ns level callback))
        (.create ns level callback) center
  | create {ns : Str} {level : UpdateNotifyLevel} {callback : Bool} :
      Moves crates center (.create ns level callback) (.acquire .currentVersion)
        (.createLoad ns level callback) center
  | createFail {ns : Str} {level : UpdateNotifyLevel} {callback : Bool} {answers : Answers crates}
      {reason : MemoryIndexError} :
      answers.memStorageNew ns center.currentVersion = .error reason →
      Moves crates center (.createLoad ns level callback) (.createLoad ns answers) .createReturn center
  | createLoad {ns : Str} {level : UpdateNotifyLevel} {callback : Bool} {answers : Answers crates}
      {memStore : MemStorage Pri} :
      answers.memStorageNew ns center.currentVersion = .ok memStore →
      Moves crates center (.createLoad ns level callback) (.createLoad ns answers)
        (.createLock (.new ns memStore level callback)) center
  | createLock {handle : NamespaceScopedCFGCenter Pri} :
      Moves crates center (.createLock handle) (.acquire .namespaces) (.createInsert handle) center
  | createInsert {handle : NamespaceScopedCFGCenter Pri} :
      Moves crates center (.createInsert handle)
        (.insert handle.namespaceName center.handles.length) .createUnlock (center.insert handle)
  | createUnlock : Moves crates center .createUnlock (.release .namespaces) .createReturn center
  | createReturn : Moves crates center .createReturn (.release .currentVersion) .idle center
  | callUpdate {e : StorageChangeEvent} :
      Moves crates center .idle (.call (.update e)) (.update e) center
  | update {e : StorageChangeEvent} :
      Moves crates center (.update e) (.acquire .namespaces) (.updateLock e) center
  | updateLock {e : StorageChangeEvent} {order : List (Str × Nat)} :
      center.Iteration order →
      Moves crates center (.updateLock e) (.acquire .currentVersion) (.updateLoop e order) center
  | updateSkip {e : StorageChangeEvent} {ns : Str} {id : Nat} {rest : List (Str × Nat)}
      {answers : Answers crates} {handle : NamespaceScopedCFGCenter Pri} :
      center.handles[id]? = some handle →
      CFGCenterInner.loadChanged answers handle.notifyLevel center.currentVersion e.newVersion ns = none →
      Moves crates center (.updateLoop e ((ns, id) :: rest)) (.load ns id e answers)
        (.updateLoop e rest) center
  | updateLoad {e : StorageChangeEvent} {ns : Str} {id : Nat} {rest : List (Str × Nat)}
      {answers : Answers crates} {handle : NamespaceScopedCFGCenter Pri}
      {newMemStore : MemStorage Pri} {changes : List Str} :
      center.handles[id]? = some handle →
      CFGCenterInner.loadChanged answers handle.notifyLevel center.currentVersion e.newVersion ns =
        some (newMemStore, changes) →
      Moves crates center (.updateLoop e ((ns, id) :: rest)) (.load ns id e answers)
        (.updateInstall e (ns, id) newMemStore changes rest) center
  | updateInstall {e : StorageChangeEvent} {ns : Str} {id : Nat} {rest : List (Str × Nat)}
      {newMemStore : MemStorage Pri} {changes : List Str} :
      Moves crates center (.updateInstall e (ns, id) newMemStore changes rest)
        (.install ns id e newMemStore) (.updateLoop e rest) (center.install id newMemStore changes)
  | updateEnd {e : StorageChangeEvent} :
      Moves crates center (.updateLoop e []) (.setVersion e.newVersion) .updateUnlock
        (center.setVersion e.newVersion)
  | updateUnlock : Moves crates center .updateUnlock (.release .currentVersion) .updateReturn center
  | updateReturn : Moves crates center .updateReturn (.release .namespaces) .idle center

structure State (Pri : Type) where
  center : CFGCenterInner Pri
  holder : Mutex → Option Nat
  threads : Nat → Thread Pri

def State.start (version : VersionItem) : State Pri :=
  { center := .new version, holder := fun _ => none, threads := fun _ => .idle }

/-- A mutex is acquired only while it is free. -/
def Action.Permitted (holder : Mutex → Option Nat) : Action crates → Prop
  | .acquire mutex => holder mutex = none
  | _ => True

def Action.relock (t : Nat) (holder : Mutex → Option Nat) : Action crates → Mutex → Option Nat
  | .acquire mutex => Function.update holder mutex (some t)
  | .release mutex => Function.update holder mutex none
  | _ => holder

/-- A step of one thread. -/
inductive Step (crates : Crates Pri) : State Pri → Nat × Action crates → State Pri → Prop
  | run {s : State Pri} {t : Nat} {action : Action crates} {next : Thread Pri}
      {center : CFGCenterInner Pri} :
      Moves crates s.center (s.threads t) action next center → action.Permitted s.holder →
      Step crates s (t, action)
        { center, holder := action.relock t s.holder, threads := Function.update s.threads t next }

/-! ## Who holds the mutexes -/

def Thread.holds : Thread Pri → Mutex → Bool
  | .getReturn _, .namespaces => true
  | .createLoad .., .currentVersion => true
  | .createLock _, .currentVersion => true
  | .createInsert _, _ => true
  | .createUnlock, _ => true
  | .createReturn, .currentVersion => true
  | .updateLock _, .namespaces => true
  | .updateLoop .., _ => true
  | .updateInstall .., _ => true
  | .updateUnlock, _ => true
  | .updateReturn, .namespaces => true
  | _, _ => false

/-- The mutexes are held by the threads that stand inside their guards. -/
def State.Locked (s : State Pri) : Prop :=
  ∀ mutex t, s.holder mutex = some t ↔ (s.threads t).holds mutex = true

variable {center center' : CFGCenterInner Pri} {thread next : Thread Pri} {action : Action crates}
  {s s' : State Pri}

/-- What a step does to the mutexes that its thread holds. -/
theorem Moves.holds (moves : Moves crates center thread action next center') (mutex : Mutex) :
    next.holds mutex =
      match action with
      | .acquire acquired => thread.holds mutex || mutex == acquired
      | .release released => thread.holds mutex && mutex != released
      | _ => thread.holds mutex := by
  cases moves <;> cases mutex <;> rfl

theorem Moves.released {mutex : Mutex}
    (moves : Moves crates center thread (.release mutex) next center') : thread.holds mutex = true := by
  cases moves <;> rfl

theorem State.Locked.unique (locked : s.Locked) {mutex : Mutex} {t u : Nat}
    (first : (s.threads t).holds mutex = true) (second : (s.threads u).holds mutex = true) : t = u := by
  rw [← locked mutex] at first second
  simpa [first] using second

theorem State.start_locked (version : VersionItem) : (State.start version : State Pri).Locked := by
  intro mutex t
  simp [State.start, Thread.holds]

theorem Step.locked {label : Nat × Action crates} (step : Step crates s label s')
    (locked : s.Locked) : s'.Locked := by
  cases step with
  | @run t action next center moves permitted =>
      intro mutex u
      have held := moves.holds mutex
      by_cases own : u = t
      · subst own
        simp only [Function.update_self, held]
        cases action with
        | acquire acquired =>
            by_cases same : mutex = acquired
            · simp [Action.relock, same]
            · simp [Action.relock, same, locked mutex]
        | release released =>
            by_cases same : mutex = released
            · simp [Action.relock, same]
            · simp [Action.relock, same, locked mutex]
        | _ => exact locked mutex u
      · simp only [Function.update_of_ne own, ← locked mutex]
        cases action with
        | acquire acquired =>
            by_cases same : mutex = acquired
            · subst same
              have free : s.holder mutex = none := permitted
              simp [Action.relock, free, Ne.symm own]
            · simp [Action.relock, same]
        | release released =>
            by_cases same : mutex = released
            · subst same
              have holder := (locked mutex t).mpr moves.released
              simp [Action.relock, holder, Ne.symm own]
            · simp [Action.relock, same]
        | _ => rfl

/-! ## Steps into a state -/

theorem Moves.enters_createLock {handle : NamespaceScopedCFGCenter Pri}
    (moves : Moves crates center thread action (.createLock handle) center') :
    ∃ ns level callback memStore, ∃ answers : Answers crates, action = .createLoad ns answers ∧
      answers.memStorageNew ns center.currentVersion = .ok memStore ∧
      handle = .new ns memStore level callback := by
  cases moves with
  | createLoad loaded => exact ⟨_, _, _, _, _, rfl, loaded, rfl⟩

theorem Moves.enters_createInsert {handle : NamespaceScopedCFGCenter Pri}
    (moves : Moves crates center thread action (.createInsert handle) center') :
    thread = .createLock handle ∧ action = .acquire .namespaces := by
  cases moves
  exact ⟨rfl, rfl⟩

theorem Moves.enters_updateLock {e : StorageChangeEvent}
    (moves : Moves crates center thread action (.updateLock e) center') :
    thread = .update e ∧ action = .acquire .namespaces := by
  cases moves
  exact ⟨rfl, rfl⟩

/-! ## An insertion -/

theorem Moves.inserts {ns : Str} {id : Nat} (moves : Moves crates center thread (.insert ns id) next center') :
    ∃ handle, thread = .createInsert handle ∧ handle.namespaceName = ns ∧ center' = center.insert handle ∧
      id = center.handles.length ∧ next = .createUnlock := by
  cases moves
  exact ⟨_, rfl, rfl, rfl, rfl, rfl⟩

/-! ## The work of an update -/

/-- Only a thread that holds the map of namespaces changes the center. -/
theorem Moves.center_eq (moves : Moves crates center thread action next center')
    (outside : thread.holds .namespaces = false) : center' = center := by
  cases moves with
  | createInsert | updateInstall | updateEnd => simp [Thread.holds] at outside
  | _ => rfl

/-- The entries of the map that an update has still to visit. -/
def CFGCenterInner.Worklist (center : CFGCenterInner Pri) (rest : List (Str × Nat)) : Prop :=
  (rest.map Prod.fst).Nodup ∧ ∀ entry ∈ rest, center.namespaces.lookup entry.1 = some entry.2

def Thread.Working (crates : Crates Pri) (center : CFGCenterInner Pri) : Thread Pri → Prop
  | .updateLoop _ rest => center.Worklist rest
  | .updateInstall e entry newMemStore changes rest =>
      center.Worklist (entry :: rest) ∧
      ∃ handle, center.handles[entry.2]? = some handle ∧
        ∃ (answers : Answers crates) (oldVersion : VersionItem),
          CFGCenterInner.loadChanged answers handle.notifyLevel oldVersion e.newVersion entry.1 =
            some (newMemStore, changes)
  | _ => True

theorem Thread.working_outside (outside : thread.holds .namespaces = false) :
    thread.Working crates center := by
  cases thread <;> trivial

theorem CFGCenterInner.Worklist.tail {entry : Str × Nat} {rest : List (Str × Nat)}
    (work : center.Worklist (entry :: rest)) : center.Worklist rest :=
  ⟨(List.nodup_cons.mp work.1).2, fun other member => work.2 other (by simp [member])⟩

theorem Moves.working (moves : Moves crates center thread action next center')
    (work : thread.Working crates center) : next.Working crates center' := by
  cases moves with
  | updateLock order => exact ⟨order.1, fun entry => (order.2 entry.1 entry.2).mp⟩
  | updateSkip stored skipped => exact CFGCenterInner.Worklist.tail work
  | updateLoad stored loaded => exact ⟨work, _, stored, _, _, loaded⟩
  | updateInstall => exact CFGCenterInner.Worklist.tail work.1
  | _ => trivial

/-- What holds in every state that threads reach. -/
structure State.Valid (crates : Crates Pri) (s : State Pri) : Prop where
  locked : s.Locked
  working : ∀ t, (s.threads t).Working crates s.center

theorem State.start_valid (crates : Crates Pri) (version : VersionItem) :
    (State.start version).Valid crates :=
  ⟨State.start_locked version, fun _ => trivial⟩

theorem Step.valid {label : Nat × Action crates} (step : Step crates s label s')
    (valid : s.Valid crates) : s'.Valid crates := by
  refine ⟨step.locked valid.locked, fun u => ?_⟩
  cases step with
  | @run t action next center moves permitted =>
      by_cases own : u = t
      · subst own
        simpa using moves.working (valid.working u)
      · simp only [Function.update_of_ne own]
        cases inside : (s.threads u).holds .namespaces with
        | false => exact Thread.working_outside inside
        | true =>
            have outside : (s.threads t).holds .namespaces = false := by
              by_contra held
              exact own (valid.locked.unique inside (by simpa using held))
            rw [moves.center_eq outside]
            exact valid.working u

end Eafcc.CfgCenter
