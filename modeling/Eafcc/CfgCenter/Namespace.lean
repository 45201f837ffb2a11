import Eafcc.CfgCenter.Querier

namespace Eafcc.CfgCenter

open Eafcc.RuleEngine

/-! # The center of one namespace -/

inductive UpdateNotifyLevel where
  | noNotify
  | notifyWithoutChangedKeysByGlobal
  | notifyWithoutChangedKeysInNamespace
  | notifyWithMaybeChangedKeys
deriving Repr, DecidableEq

variable {Pri : Type}

/-- What a callback is called with. -/
structure Differ (Pri : Type) where
  notifyLevel : UpdateNotifyLevel
  oldMemStore : MemStorage Pri
  newMemStore : MemStorage Pri
  changedFiles : List Str

/-- The handle that a client queries. `callback` tells whether it was created
with one, and `called` holds the calls that it has received. -/
structure NamespaceScopedCFGCenter (Pri : Type) where
  namespaceName : Str
  currentMemstore : MemStorage Pri
  notifyLevel : UpdateNotifyLevel
  callback : Bool
  called : List (Differ Pri)

section Queries

variable [LinearOrder Pri] (sort : SortUnstableBy Pri) (rules : List IdxRuleItem)
  (whoami : MatchContext) (keys : List Str) (viewMode : ViewMode) (needExplain : Bool)

def Differ.getFromOld (differ : Differ Pri) : Option (List (CFGResult Pri)) :=
  Querier.get sort differ.oldMemStore rules whoami keys viewMode needExplain

def Differ.getFromNew (differ : Differ Pri) : Option (List (CFGResult Pri)) :=
  Querier.get sort differ.newMemStore rules whoami keys viewMode needExplain

def NamespaceScopedCFGCenter.getCfg (center : NamespaceScopedCFGCenter Pri) :
    Option (List (CFGResult Pri)) :=
  Querier.get sort center.currentMemstore rules whoami keys viewMode needExplain

end Queries

namespace NamespaceScopedCFGCenter

def new (namespaceName : Str) (memStore : MemStorage Pri) (notifyLevel : UpdateNotifyLevel)
    (callback : Bool) : NamespaceScopedCFGCenter Pri :=
  { namespaceName, currentMemstore := memStore, notifyLevel, callback, called := [] }

/-- Calls the callback at the global level only, then installs the snapshot. -/
def updateCallback (center : NamespaceScopedCFGCenter Pri) (newMemStore : MemStorage Pri)
    (changes : List Str) : NamespaceScopedCFGCenter Pri :=
  match center.notifyLevel with
  | .notifyWithoutChangedKeysByGlobal =>
      if center.callback then
        let differ : Differ Pri :=
          { notifyLevel := center.notifyLevel, oldMemStore := center.currentMemstore, newMemStore
            changedFiles := changes }
        { center with currentMemstore := newMemStore, called := center.called ++ [differ] }
      else { center with currentMemstore := newMemStore }
  | .notifyWithoutChangedKeysInNamespace => { center with currentMemstore := newMemStore }
  | .notifyWithMaybeChangedKeys => { center with currentMemstore := newMemStore }
  | .noNotify => center

variable (center : NamespaceScopedCFGCenter Pri) (newMemStore : MemStorage Pri) (changes : List Str)

@[simp]
theorem updateCallback_namespaceName :
    (center.updateCallback newMemStore changes).namespaceName = center.namespaceName := by
  unfold updateCallback
  split
  · split <;> rfl
  all_goals rfl

@[simp]
theorem updateCallback_notifyLevel :
    (center.updateCallback newMemStore changes).notifyLevel = center.notifyLevel := by
  unfold updateCallback
  split
  · split <;> rfl
  all_goals rfl

@[simp]
theorem updateCallback_callback :
    (center.updateCallback newMemStore changes).callback = center.callback := by
  unfold updateCallback
  split
  · split <;> rfl
  all_goals rfl

theorem updateCallback_currentMemstore (notified : center.notifyLevel ≠ .noNotify) :
    (center.updateCallback newMemStore changes).currentMemstore = newMemStore := by
  unfold updateCallback
  split
  · split <;> rfl
  · rfl
  · rfl
  · contradiction

end NamespaceScopedCFGCenter

end Eafcc.CfgCenter
