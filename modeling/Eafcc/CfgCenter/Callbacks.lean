import Eafcc.CfgCenter.Sequential
import Eafcc.Library.Locks

namespace Eafcc.CfgCenter

open Eafcc.Model Eafcc.Storage Locks

/-! # The locks of the updater while callbacks run -/

/-- The locks of the library and of the Go binding. A handle has its snapshot's lock,
and a Go namespace its own, both under the number of the handle. -/
inductive LockName where
  | namespaces
  | currentVersion
  | currentMemstore (id : Nat)
  | backendInner
  | namespaceInstanceStorageForCGo
  | goNamespace (id : Nat)
deriving Repr, DecidableEq

abbrev LockRequests := List (Request LockName)

/-! ## What a callback does -/

/-- How far a call of the Go binding's `GetCfg` goes. -/
inductive GetCfgEnd where
  | cached
  | failed
  | loaded
deriving Repr, DecidableEq

inductive ReadOperation where
  | getFromOld
  | getFromNew
  | getCfg (id : Nat)
  | getNamespaceScopedCfgCenter (ns : Str)
  | goGetCfg (id : Nat) (ends : GetCfgEnd)
deriving Repr, DecidableEq

def ReadOperation.locks : ReadOperation → LockRequests
  | .getFromOld => []
  | .getFromNew => []
  | .getCfg id => reading (.currentMemstore id) []
  | .getNamespaceScopedCfgCenter _ => locked .namespaces []
  | .goGetCfg id .cached => reading (.goNamespace id) []
  | .goGetCfg id .failed => reading (.goNamespace id) [] ++ reading (.currentMemstore id) []
  | .goGetCfg id .loaded =>
      reading (.goNamespace id) [] ++ reading (.currentMemstore id) [] ++
        locked (.goNamespace id) [] ++ reading (.goNamespace id) []

/-- What a user's callback does in one call. -/
abbrev CallbackProgram := List ReadOperation

/-- A callback of the library, or the one that the Go binding registers, which may
not know the namespace yet and may have no callback of its own. -/
inductive Callback where
  | rust (program : CallbackProgram)
  | updateCbGo (known : Bool) (updateCb : Option CallbackProgram)

def CallbackProgram.locks (program : CallbackProgram) : LockRequests :=
  program.flatMap ReadOperation.locks

/-- The locks that a handle's callback takes. -/
def Callback.locks (id : Nat) : Callback → LockRequests
  | .rust program => program.locks
  | .updateCbGo known updateCb =>
      reading .namespaceInstanceStorageForCGo [] ++
        if known then
          locked (.goNamespace id)
            (match updateCb with
              | some program => program.locks
              | none => [])
        else []

/-! ## What the updater does -/

inductive BackendKind where
  | filesystem
  | git
deriving Repr, DecidableEq

/-- A walk over the files of a version that reads `objects` of them. The git
backend's other lock is reentrant, so its holder never waits for it. -/
def walkLocks (objects : Nat) : BackendKind → LockRequests
  | .filesystem => []
  | .git =>
      reading .backendInner ((List.range objects).flatMap fun _ => reading .backendInner [])

/-- The locks of `update_callback` of one handle, whose read guard is dropped before
the snapshot is swapped. -/
def NamespaceScopedCFGCenter.updateLocks {Pri : Type} (handle : NamespaceScopedCFGCenter Pri) (id : Nat)
    (callback : Callback) : LockRequests :=
  match handle.notifyLevel with
  | .notifyWithoutChangedKeysByGlobal =>
      (if handle.callback then reading (.currentMemstore id) (callback.locks id) else []) ++
        locked (.currentMemstore id) []
  | .notifyWithoutChangedKeysInNamespace => locked (.currentMemstore id) []
  | .notifyWithMaybeChangedKeys => locked (.currentMemstore id) []
  | .noNotify => []

namespace CFGCenterInner

variable {Pri : Type} {crates : Crates Pri} (center : CFGCenterInner Pri) (answers : Answers crates)
  (callbacks : Nat → Callback) (backend : BackendKind) (walks : Str → List Nat)
  (e : StorageChangeEvent)

/-- The body of the loop over the namespaces. `walks` are the walks that it makes to
load a namespace, with the numbers of objects that they read. -/
def updateNamespaceLocks (entry : Str × Nat) : LockRequests :=
  match center.handles[entry.2]? with
  | none => []
  | some handle =>
      ((walks entry.1).flatMap fun objects => walkLocks objects backend) ++
        match loadChanged answers handle.notifyLevel center.currentVersion e.newVersion entry.1 with
        | none => []
        | some _ => handle.updateLocks entry.2 (callbacks entry.2)

def updateCallbackLocks (order : List (Str × Nat)) : LockRequests :=
  locked .namespaces
    (locked .currentVersion
      (order.flatMap (updateNamespaceLocks center answers callbacks backend walks e)))

/-- The handle's callback is called for an event. -/
def CallsBack (entry : Str × Nat) : Prop :=
  ∃ handle, center.handles[entry.2]? = some handle ∧
    handle.notifyLevel = .notifyWithoutChangedKeysByGlobal ∧ handle.callback = true ∧
    ∃ loaded, loadChanged answers handle.notifyLevel center.currentVersion e.newVersion entry.1 = some loaded

end CFGCenterInner

/-! ## What a callback must not do -/

/-- The program looks up no namespace of the center, and does not query the Go
namespace that it was passed through the cache. -/
def CallbackProgram.Avoids (program : CallbackProgram) (passed : Option Nat) : Prop :=
  ∀ operation ∈ program, (∀ ns, operation ≠ .getNamespaceScopedCfgCenter ns) ∧
    ∀ id ends, operation = .goGetCfg id ends → passed ≠ some id

def Callback.Avoids (id : Nat) : Callback → Prop
  | .rust program => program.Avoids none
  | .updateCbGo known updateCb =>
      known = true → ∀ program, updateCb = some program → program.Avoids (some id)

/-- What the updater holds while a program runs that was passed a Go namespace. -/
structure Calling (held : LockName → Hold) (passed : Option Nat) : Prop where
  namespaces : held .namespaces = .exclusive
  snapshots : ∀ id, held (.currentMemstore id) ≠ .exclusive
  goNamespaces : ∀ id, held (.goNamespace id) = if passed = some id then .exclusive else .free

variable {held : LockName → Hold} {passed : Option Nat}

theorem completes_guard {l : LockName} : Completes held (reading l []) ↔ held l ≠ .exclusive := by
  rw [completes_reading neutral_nil]
  exact and_iff_left completes_nil

theorem completes_lock {l : LockName} : Completes held (locked l []) ↔ held l = .free := by
  rw [completes_locked neutral_nil]
  exact and_iff_left completes_nil

theorem ReadOperation.neutral (operation : ReadOperation) : Neutral operation.locks := by
  have guard : ∀ l : LockName, Neutral (reading l []) := fun _ => neutral_nil.reading
  have lock : ∀ l : LockName, Neutral (locked l []) := fun _ => neutral_nil.locked
  cases operation with
  | getFromOld => exact neutral_nil
  | getFromNew => exact neutral_nil
  | getCfg id => exact guard _
  | getNamespaceScopedCfgCenter ns => exact lock _
  | goGetCfg id ends =>
      cases ends with
      | cached => exact guard _
      | failed => exact (guard _).append (guard _)
      | loaded => exact (((guard _).append (guard _)).append (lock _)).append (guard _)

theorem CallbackProgram.neutral (program : CallbackProgram) : Neutral program.locks :=
  .flatMap fun operation _ => operation.neutral

theorem Calling.goGetCfg (calling : Calling held passed) (id : Nat) (ends : GetCfgEnd) :
    Completes held (ReadOperation.goGetCfg id ends).locks ↔ passed ≠ some id := by
  have guard : Completes held (reading (.goNamespace id) []) ↔ passed ≠ some id := by
    rw [completes_guard, calling.goNamespaces]
    split <;> simp [*]
  have lock : Completes held (locked (.goNamespace id) []) ↔ passed ≠ some id := by
    rw [completes_lock, calling.goNamespaces]
    split <;> simp [*]
  have query : Completes held (reading (.currentMemstore id) []) :=
    completes_guard.mpr (calling.snapshots id)
  have scope : ∀ l : LockName, Neutral (reading l []) := fun _ => neutral_nil.reading
  cases ends with
  | cached => exact guard
  | failed =>
      simp only [ReadOperation.locks]
      rw [completes_append (scope _), guard, and_iff_left query]
  | loaded =>
      simp only [ReadOperation.locks]
      rw [completes_append (((scope _).append (scope _)).append neutral_nil.locked),
        completes_append ((scope _).append (scope _)), completes_append (scope _), guard, lock]
      simp [query]

theorem Calling.operation (calling : Calling held passed) (operation : ReadOperation) :
    Completes held operation.locks ↔ (∀ ns, operation ≠ .getNamespaceScopedCfgCenter ns) ∧
      ∀ id ends, operation = .goGetCfg id ends → passed ≠ some id := by
  cases operation with
  | getFromOld => simp [ReadOperation.locks, completes_nil]
  | getFromNew => simp [ReadOperation.locks, completes_nil]
  | getCfg id => simp [ReadOperation.locks, completes_guard, calling.snapshots id]
  | getNamespaceScopedCfgCenter ns => simp [ReadOperation.locks, completes_lock, calling.namespaces]
  | goGetCfg id ends =>
      rw [calling.goGetCfg]
      simp

theorem Calling.program (calling : Calling held passed) (program : CallbackProgram) :
    Completes held program.locks ↔ program.Avoids passed := by
  rw [CallbackProgram.locks, completes_flatMap fun operation _ => operation.neutral]
  exact forall₂_congr fun operation _ => calling.operation operation

theorem Callback.neutral (id : Nat) (callback : Callback) : Neutral (callback.locks id) := by
  cases callback with
  | rust program => exact program.neutral
  | updateCbGo known updateCb =>
      refine neutral_nil.reading.append ?_
      cases known with
      | false => exact neutral_nil
      | true =>
          cases updateCb with
          | none => exact neutral_nil.locked
          | some program => exact program.neutral.locked

theorem Calling.callback (calling : Calling held none)
    (registry : held .namespaceInstanceStorageForCGo ≠ .exclusive) (id : Nat) (callback : Callback) :
    Completes held (callback.locks id) ↔ callback.Avoids id := by
  cases callback with
  | rust program => exact calling.program program
  | updateCbGo known updateCb =>
      have inner : Calling (Function.update held (.goNamespace id) .exclusive) (some id) := by
        refine ⟨by simpa using calling.namespaces, fun other => by simpa using calling.snapshots other, ?_⟩
        intro other
        by_cases same : id = other
        · simp [same]
        · simp [same, Ne.symm same, calling.goNamespaces]
      have free : held (.goNamespace id) = .free := by simp [calling.goNamespaces]
      have guard := completes_guard.mpr registry
      simp only [Callback.locks, Callback.Avoids]
      rw [completes_append neutral_nil.reading, and_iff_right guard]
      cases known with
      | false => simp [completes_nil]
      | true =>
          cases updateCb with
          | none => simp [completes_lock, free]
          | some program =>
              simp only [if_true]
              rw [completes_locked program.neutral, inner.program]
              simp [free]

/-! ## What the updater completes -/

/-- What the updater holds in its loop over the namespaces. -/
def heldInLoop : LockName → Hold :=
  Function.update (Function.update (fun _ => .free) .namespaces .exclusive) .currentVersion .exclusive

theorem calling_inLoop (id : Nat) : Calling (addReader heldInLoop (.currentMemstore id)) none := by
  refine ⟨by simp [addReader, heldInLoop], fun other => ?_, fun other => ?_⟩
  · by_cases same : other = id <;> simp [addReader, heldInLoop, same]
  · simp [addReader, heldInLoop]

theorem walkLocks_neutral (objects : Nat) (backend : BackendKind) : Neutral (walkLocks objects backend) := by
  cases backend with
  | filesystem => exact neutral_nil
  | git =>
      apply Neutral.reading
      exact .flatMap fun _ _ => neutral_nil.reading

theorem completes_walkLocks (objects : Nat) (backend : BackendKind) :
    Completes heldInLoop (walkLocks objects backend) := by
  cases backend with
  | filesystem => exact completes_nil
  | git =>
      have scope : ∀ l : LockName, Neutral (reading l []) := fun _ => neutral_nil.reading
      rw [walkLocks, completes_reading (.flatMap fun _ _ => scope _), completes_flatMap fun _ _ => scope _]
      refine ⟨by simp [heldInLoop], fun _ _ => completes_guard.mpr ?_⟩
      simp [addReader, heldInLoop]

section Handle

variable {Pri : Type} (handle : NamespaceScopedCFGCenter Pri) (id : Nat) (callback : Callback)

theorem updateLocks_neutral : Neutral (handle.updateLocks id callback) := by
  unfold NamespaceScopedCFGCenter.updateLocks
  split
  · refine .append ?_ neutral_nil.locked
    split
    · exact (callback.neutral id).reading
    · exact neutral_nil
  · exact neutral_nil.locked
  · exact neutral_nil.locked
  · exact neutral_nil

theorem completes_updateLocks : Completes heldInLoop (handle.updateLocks id callback) ↔
    (handle.notifyLevel = .notifyWithoutChangedKeysByGlobal → handle.callback = true →
      callback.Avoids id) := by
  have swap : Completes heldInLoop (locked (.currentMemstore id) []) :=
    completes_lock.mpr (by simp [heldInLoop])
  have free : heldInLoop (.currentMemstore id) ≠ .exclusive := by simp [heldInLoop]
  have registry : addReader heldInLoop (.currentMemstore id) .namespaceInstanceStorageForCGo ≠
      .exclusive := by simp [addReader, heldInLoop]
  unfold NamespaceScopedCFGCenter.updateLocks
  split
  · rename_i level
    cases called : handle.callback with
    | false => simp [level, swap]
    | true =>
        simp only [if_true, level, forall_const]
        rw [completes_append (callback.neutral id).reading, and_iff_left swap,
          completes_reading (callback.neutral id), (calling_inLoop id).callback registry]
        exact and_iff_right free
  · simp [*]
  · simp [*]
  · simp [*, completes_nil]

end Handle

namespace CFGCenterInner

variable {Pri : Type} {crates : Crates Pri} (center : CFGCenterInner Pri) (answers : Answers crates)
  (callbacks : Nat → Callback) (backend : BackendKind) (walks : Str → List Nat)
  (e : StorageChangeEvent)

theorem updateNamespaceLocks_neutral (entry : Str × Nat) :
    Neutral (center.updateNamespaceLocks answers callbacks backend walks e entry) := by
  unfold updateNamespaceLocks
  split
  · exact neutral_nil
  · refine Neutral.append (.flatMap fun objects _ => walkLocks_neutral objects backend) ?_
    split
    · exact neutral_nil
    · exact updateLocks_neutral _ _ _

theorem completes_updateNamespaceLocks (entry : Str × Nat) :
    Completes heldInLoop (center.updateNamespaceLocks answers callbacks backend walks e entry) ↔
      (center.CallsBack answers e entry → (callbacks entry.2).Avoids entry.2) := by
  unfold updateNamespaceLocks CallsBack
  cases found : center.handles[entry.2]? with
  | none => simp [completes_nil]
  | some handle =>
      have load : Completes heldInLoop ((walks entry.1).flatMap fun objects => walkLocks objects backend) :=
        (completes_flatMap fun objects _ => walkLocks_neutral objects backend).mpr
          fun objects _ => completes_walkLocks objects backend
      rw [completes_append (.flatMap fun objects _ => walkLocks_neutral objects backend),
        and_iff_right load]
      cases loaded : loadChanged answers handle.notifyLevel center.currentVersion e.newVersion entry.1 with
      | none => simp [completes_nil, loaded]
      | some result =>
          simp only [completes_updateLocks, Option.some.injEq, exists_eq_left', loaded, exists_eq', and_true,
            and_imp]

/-- A callback that is called for an event has one more call. -/
theorem callsBack_iff_called (entry : Str × Nat) : center.CallsBack answers e entry ↔
    ∃ handle handle', center.handles[entry.2]? = some handle ∧
      (center.updateNamespace answers e entry).handles[entry.2]? = some handle' ∧
      handle'.called ≠ handle.called := by
  cases found : center.handles[entry.2]? with
  | none => simp [CallsBack, found]
  | some handle =>
      cases loaded : loadChanged answers handle.notifyLevel center.currentVersion e.newVersion entry.1 with
      | none => simp [CallsBack, updateNamespace, found, loaded]
      | some result =>
          have installed : (center.updateNamespace answers e entry).handles[entry.2]? =
              some (handle.updateCallback result.1 result.2) := by
            simp [updateNamespace, found, loaded, install]
          simp only [CallsBack, found, installed, loaded, Option.some.injEq, exists_eq_left', exists_eq',
            and_true, NamespaceScopedCFGCenter.updateCallback]
          cases level : handle.notifyLevel with
          | notifyWithoutChangedKeysByGlobal => cases handle.callback <;> simp
          | _ => simp

theorem updateCallbackLocks_neutral (order : List (Str × Nat)) :
    Neutral (center.updateCallbackLocks answers callbacks backend walks e order) := by
  apply Neutral.locked
  apply Neutral.locked
  exact .flatMap fun entry _ => center.updateNamespaceLocks_neutral answers callbacks backend walks e entry

theorem completes_updateCallbackLocks (order : List (Str × Nat)) :
    Completes (fun _ => .free) (center.updateCallbackLocks answers callbacks backend walks e order) ↔
      ∀ entry ∈ order, center.CallsBack answers e entry → (callbacks entry.2).Avoids entry.2 := by
  have each := fun entry (_ : entry ∈ order) =>
    center.updateNamespaceLocks_neutral answers callbacks backend walks e entry
  rw [updateCallbackLocks, completes_locked (Neutral.flatMap each).locked,
    completes_locked (.flatMap each), completes_flatMap each]
  simp only [ne_eq, reduceCtorEq, not_false_eq_true, Function.update_of_ne, true_and]
  exact forall₂_congr fun entry _ => center.completes_updateNamespaceLocks answers callbacks backend walks e entry

/-- An updater that is alone never waits for a lock of its own exactly if no callback
that it calls looks up a namespace of the center or queries the Go namespace that it
was passed, and then it completes the event. -/
theorem updateCallback_neverWaits_iff (order : List (Str × Nat)) :
    (NeverWaits (fun _ => .free)
        (center.updateCallbackLocks answers callbacks backend walks e order) ↔
      ∀ entry ∈ order, center.CallsBack answers e entry → (callbacks entry.2).Avoids entry.2) ∧
    (NeverWaits (fun _ => .free)
        (center.updateCallbackLocks answers callbacks backend walks e order) →
      Completes (fun _ => .free)
        (center.updateCallbackLocks answers callbacks backend walks e order)) := by
  have neutral := center.updateCallbackLocks_neutral answers callbacks backend walks e order
  have completes := center.completes_updateCallbackLocks answers callbacks backend walks e order
  exact ⟨neutral.completes_iff.symm.trans completes, neutral.completes_iff.mpr⟩

/-- A callback that looks up its namespace, and one that queries the Go namespace
that it was passed, wait for locks of the updater. -/
theorem callback_waits : sampleCreated.Iteration [(['/'], 0)] ∧
    (¬ NeverWaits (fun _ => .free) (sampleCreated.updateCallbackLocks sampleAnswers
      (fun _ => .rust [.getNamespaceScopedCfgCenter ['/']]) .filesystem (fun _ => []) sampleEvent
        [(['/'], 0)])) ∧
    ¬ NeverWaits (fun _ => .free) (sampleCreated.updateCallbackLocks sampleAnswers
      (fun _ => .updateCbGo true (some [.goGetCfg 0 .cached])) .filesystem (fun _ => []) sampleEvent
        [(['/'], 0)]) := by
  refine ⟨sampleCreated_iteration, fun never => ?_, fun never => ?_⟩
  · exact neverWaits_iff.mp never rfl
  · exact neverWaits_iff.mp never rfl

end CFGCenterInner

end Eafcc.CfgCenter
