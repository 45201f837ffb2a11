import Eafcc.Model.Object
import Eafcc.Storage.Path

namespace Eafcc.Storage

open Eafcc.Model

/-! # Storage backends and their default walk -/

structure VersionItem where
  name : Str
  id : ObjectID
deriving DecidableEq

structure DirItem where
  absPath : Path
  isDir : Bool
  hash : ObjectID

inductive WalkRetCtl where
  | next
  | skipCurrentNode
  | stopWalking
deriving Repr, DecidableEq

/-- What the loop over the nodes of one directory leaves. -/
inductive Visit where
  | more (nodesToVisit : List Path)
  | done (result : Rust StorageBackendError Unit)

section Walk

variable {σ : Type} (cb : σ → DirItem → σ × Rust WalkDirError WalkRetCtl)

/-- The loop over the nodes of one directory. The callback's captured state is
passed along and survives its errors. -/
def visitNodes : List DirItem → List Path → σ → σ × Visit
  | [], nodesToVisit, state => (state, .more nodesToVisit)
  | curNode :: nodes, nodesToVisit, state =>
      match cb state curNode with
      | (state, .ok .stopWalking) => (state, .done (.ok ()))
      | (state, .ok .skipCurrentNode) => visitNodes nodes nodesToVisit state
      | (state, .ok .next) =>
          if curNode.isDir then visitNodes nodes (curNode.absPath :: nodesToVisit) state
          else visitNodes nodes nodesToVisit state
      | (state, .error (.error reason)) => (state, .done (Rust.fail (.walkDirError reason)))
      | (state, .error .panic) => (state, .done Rust.panics)

/-- The walk with at most `fuel` turns of its outer loop, whose stack has its
top first. -/
def walkLoop (listDir : Path → Except StorageBackendError (List DirItem)) :
    Nat → List Path → σ → Option (σ × Rust StorageBackendError Unit)
  | 0, _, _ => none
  | _ + 1, [], state => some (state, .ok ())
  | fuel + 1, parentNode :: nodesToVisit, state =>
      match listDir parentNode with
      | .error reason => some (state, Rust.fail reason)
      | .ok nodes =>
          match visitNodes cb nodes nodesToVisit state with
          | (state, .done result) => some (state, result)
          | (state, .more nodesToVisit) => walkLoop listDir fuel nodesToVisit state

/-- The walk that the trait provides. -/
def defaultWalkDir (listDir : VersionItem → Path → Except StorageBackendError (List DirItem))
    (fuel : Nat) (version : VersionItem) (path : Path) (state : σ) :
    Option (σ × Rust StorageBackendError Unit) :=
  walkLoop cb (listDir version) fuel [path] state

end Walk

/-! ## What a walk keeps -/

section Keeps

variable {σ : Type} {cb : σ → DirItem → σ × Rust WalkDirError WalkRetCtl}
  {listDir : Path → Except StorageBackendError (List DirItem)} {nodes : List DirItem}
  {stack : List Path} {s s' : σ}

theorem visitNodes_keeps {keeps : σ → Prop} (each : ∀ s node, keeps s → keeps (cb s node).1) (start : keeps s) :
    keeps (visitNodes cb nodes stack s).1 := by
  induction nodes generalizing stack s with
  | nil => exact start
  | cons node nodes ih =>
      have after := each s node start
      unfold visitNodes
      cases answered : cb s node with
      | mk s' control =>
          rw [answered] at after
          match control with
          | .ok .stopWalking => exact after
          | .ok .skipCurrentNode => exact ih after
          | .ok .next =>
              dsimp only
              split
              · exact ih after
              · exact ih after
          | .error (.error _) => exact after
          | .error .panic => exact after

/-- A walk keeps what its callback keeps. -/
theorem walkLoop_keeps {keeps : σ → Prop} (each : ∀ s node, keeps s → keeps (cb s node).1) (start : keeps s)
    {fuel : Nat} {result : Rust StorageBackendError Unit}
    (walked : walkLoop cb listDir fuel stack s = some (s', result)) : keeps s' := by
  induction fuel generalizing stack s with
  | zero => cases walked
  | succ fuel ih =>
      cases stack with
      | nil =>
          cases walked
          exact start
      | cons path stack =>
          unfold walkLoop at walked
          cases listed : listDir path with
          | error reason =>
              rw [listed] at walked
              cases walked
              exact start
          | ok nodes =>
              have after : keeps (visitNodes cb nodes stack s).1 := visitNodes_keeps each start
              simp only [listed] at walked
              cases visited : visitNodes cb nodes stack s with
              | mk s'' visit =>
                  rw [visited] at walked after
                  cases visit with
                  | done ended =>
                      cases walked
                      exact after
                  | more stack'' => exact ih after walked

end Keeps

/-! ## Backends -/

/-- The methods of a backend that loading a namespace calls. A backend may have a walk
of its own, and a walk changes the state of its callback by calling it only. -/
structure StorageBackend where
  getObjByHash : ObjectID → Except StorageBackendError Bytes
  listDir : VersionItem → Path → Except StorageBackendError (List DirItem)
  walkDir : ∀ {σ : Type}, (σ → DirItem → σ × Rust WalkDirError WalkRetCtl) → Nat → VersionItem → Path → σ →
    Option (σ × Rust StorageBackendError Unit)
  walkDir_keeps : ∀ {σ : Type} {cb : σ → DirItem → σ × Rust WalkDirError WalkRetCtl} {keeps : σ → Prop}
    {fuel : Nat} {version : VersionItem} {path : Path} {s s' : σ} {result : Rust StorageBackendError Unit},
    (∀ s node, keeps s → keeps (cb s node).1) → keeps s →
    walkDir cb fuel version path s = some (s', result) → keeps s'

/-- A backend that does not override the walk. -/
def StorageBackend.withDefaultWalk (getObjByHash : ObjectID → Except StorageBackendError Bytes)
    (listDir : VersionItem → Path → Except StorageBackendError (List DirItem)) : StorageBackend where
  getObjByHash
  listDir
  walkDir cb fuel version path state := defaultWalkDir cb listDir fuel version path state
  walkDir_keeps each start walked := walkLoop_keeps each start walked

def StorageBackend.WalksByDefault (backend : StorageBackend) : Prop :=
  ∀ (σ : Type) (cb : σ → DirItem → σ × Rust WalkDirError WalkRetCtl) (fuel : Nat) (version : VersionItem)
    (path : Path) (state : σ), backend.walkDir cb fuel version path state =
      defaultWalkDir cb backend.listDir fuel version path state

end Eafcc.Storage
