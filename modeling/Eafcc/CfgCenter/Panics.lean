import Eafcc.CfgCenter.Loading
import Eafcc.Storage.Git

namespace Eafcc.CfgCenter

open Eafcc.RuleEngine Eafcc.Model Eafcc.Storage

/-! # Panics while a namespace is loaded -/

variable {Pri : Type} {backend : StorageBackend} {version : VersionItem} {root : Node}
  {hash : List FileName → ObjectID} {ns : List FileName}

/-! ## How a loader ends -/

section Objects

variable {Obj : Type} {directory : FileName} {decode : Bytes → Except DataLoaderError Obj}
  {add : CFGIndex Pri → Str → Obj → Option (CFGIndex Pri)} {index : CFGIndex Pri}

end Objects

section Load

variable {crates : Crates Pri}

instance (linkObj : Link Pri) : Decidable (Sliceable linkObj) :=
  inferInstanceAs (Decidable (∀ reference ∈ linkObj.spec.rule :: linkObj.spec.reses, _))

variable {fuel : Nat} {index : CFGIndex Pri}

end Load

/-! ## The loaders on the git walk -/

section GitWalk

variable {crates : Crates Pri} {git : GitBackend}

section Objects

variable {Obj : Type} {directory : FileName} {decode : Bytes → Except DataLoaderError Obj}
  {add : CFGIndex Pri → Str → Obj → Option (CFGIndex Pri)} {index : CFGIndex Pri} {addable : Obj → Bool}

end Objects

end GitWalk

/-! ## Both walks -/

/-- A run that ends with enough fuel returns exactly if it does not panic. -/
theorem Terminates.returns_iff {ε α : Type} {run : Nat → Option (Rust ε α)} (terminates : Terminates run)
    {bad : Prop} (panics : ∀ {fuel} result, run fuel = some result → (result = .error .panic ↔ bad)) :
    (∃ enough result, (∀ fuel, enough ≤ fuel → run fuel = some result) ∧ result ≠ .error .panic) ↔ ¬ bad := by
  constructor
  · intro returns
    obtain ⟨enough, result, ends, calm⟩ := returns
    rwa [← panics result (ends enough (Nat.le_refl _))]
  · intro calm
    obtain ⟨enough, result, ends⟩ := terminates
    exact ⟨enough, result, ends, mt (panics result (ends enough (Nat.le_refl _))).mp calm⟩

section Sample

end Sample

end Eafcc.CfgCenter
