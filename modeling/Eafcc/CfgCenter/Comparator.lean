import Eafcc.CfgCenter.Overlay
import Eafcc.Library.Comparison

namespace Eafcc.CfgCenter

open Comparison

/-! # The comparison that the overlaid view sorts with -/

variable {Pri : Type} [LinearOrder Pri] {a b c : IdxLinkItem Pri} {links : List (IdxLinkItem Pri)}

/-- `slice::sort_unstable_by`, where `none` is a panic. -/
abbrev SortBy (Pri : Type) :=
  (IdxLinkItem Pri → IdxLinkItem Pri → Ordering) → List (IdxLinkItem Pri) → Option (List (IdxLinkItem Pri))

/-- What the documentation of the sort promises: it sorts a list whose elements the
comparison orders. What it does with others is left open. -/
def Documented (sort : SortBy Pri) : Prop :=
  ∀ compare links, Orders compare links →
    ∃ sorted, sort compare links = some sorted ∧ sorted.Perm links ∧ Sorted compare sorted

/-- The links differ in what the comparison looks at. -/
def Distinguished (a b : IdxLinkItem Pri) : Prop := a.pri ≠ b.pri ∨ a.isNeg ≠ b.isNeg

theorem compareLinks_eq_lt :
    compareLinks a b = .lt ↔ b.pri < a.pri ∨ (a.pri = b.pri ∧ a.isNeg = true) := by
  unfold compareLinks
  rcases lt_trichotomy a.pri b.pri with lower | same | higher
  · simp [lower.not_gt, lower.ne]
  · cases a.isNeg <;> simp [same]
  · simp [higher]

theorem compareLinks_eq_gt :
    compareLinks a b = .gt ↔ a.pri < b.pri ∨ (a.pri = b.pri ∧ a.isNeg = false) := by
  unfold compareLinks
  rcases lt_trichotomy a.pri b.pri with lower | same | higher
  · simp [lower, lower.not_gt, lower.ne]
  · cases a.isNeg <;> simp [same]
  · simp [higher, higher.not_gt, higher.ne']

theorem compareLinks_ne_eq (a b : IdxLinkItem Pri) : compareLinks a b ≠ .eq := by
  unfold compareLinks
  split
  · simp
  · split
    · split <;> simp
    · simp

/-- The comparison chains for all links. -/
theorem compareLinks_chains (a b c : IdxLinkItem Pri) : Chains compareLinks a b c := by
  intro outcome first second
  cases outcome with
  | lt =>
      rw [compareLinks_eq_lt] at first second ⊢
      rcases first with higher | ⟨same, negative⟩
      · rcases second with further | ⟨level, -⟩
        · exact .inl (further.trans higher)
        · exact .inl (level ▸ higher)
      · rcases second with further | ⟨level, -⟩
        · exact .inl (same ▸ further)
        · exact .inr ⟨same.trans level, negative⟩
  | eq => exact absurd first (compareLinks_ne_eq a b)
  | gt =>
      rw [compareLinks_eq_gt] at first second ⊢
      rcases first with lower | ⟨same, positive⟩
      · rcases second with further | ⟨level, -⟩
        · exact .inl (lower.trans further)
        · exact .inl (level ▸ lower)
      · rcases second with further | ⟨level, -⟩
        · exact .inl (same ▸ further)
        · exact .inr ⟨same.trans level, positive⟩

/-- It reverses only where it can tell the links apart: a tie is never `Equal`. -/
theorem compareLinks_reverses_iff : Reverses compareLinks a b ↔ Distinguished a b := by
  unfold Reverses Distinguished compareLinks
  rcases lt_trichotomy a.pri b.pri with lower | same | higher
  · simp [lower, lower.not_gt, lower.ne]
  · cases a.isNeg <;> cases b.isNeg <;> simp [same]
  · simp [higher, higher.not_gt, higher.ne, higher.ne']

theorem orders_compareLinks_iff : Orders compareLinks links ↔ links.Pairwise Distinguished := by
  constructor
  · intro orders
    exact orders.reverses.imp compareLinks_reverses_iff.mp
  · intro distinguished
    exact ⟨distinguished.imp compareLinks_reverses_iff.mpr, fun a _ b _ c _ => compareLinks_chains a b c⟩

open Classical in
/-- A sort that panics wherever the documentation allows it. -/
theorem exists_fragile_sort (Pri : Type) : ∃ sort : SortBy Pri, Documented sort ∧
    ∀ compare links, ¬ Orders compare links → sort compare links = none := by
  refine ⟨fun compare links =>
    if orders : Orders compare links then some orders.exists_sorted.choose else none, ?_, ?_⟩
  · intro compare links orders
    exact ⟨_, dif_pos orders, orders.exists_sorted.choose_spec⟩
  · intro compare links disorder
    exact dif_neg disorder

/-- The laws of a total order hold of some links exactly if the first two differ in
priority or in sign, and what is documented of the sort is enough for a list exactly if
any two of its links do. -/
theorem compareLinks_lawful_iff (Pri : Type) [LinearOrder Pri] :
    (∀ a b c : IdxLinkItem Pri, Reverses compareLinks a b ∧ Chains compareLinks a b c ↔ Distinguished a b) ∧
    ∀ links : List (IdxLinkItem Pri),
      (∀ sort : SortBy Pri, Documented sort →
        ∃ sorted, sort compareLinks links = some sorted ∧ sorted.Perm links ∧ Sorted compareLinks sorted) ↔
      links.Pairwise Distinguished := by
  constructor
  · intro a b c
    rw [compareLinks_reverses_iff, and_iff_left (compareLinks_chains a b c)]
  · intro links
    rw [← orders_compareLinks_iff]
    constructor
    · intro sorts
      obtain ⟨sort, documented, fragile⟩ := exists_fragile_sort Pri
      obtain ⟨sorted, returned, -⟩ := sorts sort documented
      by_contra disorder
      rw [fragile _ _ disorder] at returned
      cases returned
    · intro orders sort documented
      exact documented compareLinks links orders

/-- Two positive links of one priority come behind each other, and a sort that panics on
them keeps to its documentation. -/
theorem compareLinks_unlawful : ∃ a b : IdxLinkItem Nat,
    compareLinks a b = .gt ∧ compareLinks b a = .gt ∧ compareLinks a a ≠ .eq ∧
    ¬ Reverses compareLinks a b ∧
    ∃ sort : SortBy Nat, Documented sort ∧ sort compareLinks [a, b] = none := by
  obtain ⟨sort, documented, fragile⟩ := exists_fragile_sort Nat
  refine ⟨⟨1, false, "path:/r".toList, ['s'], ['l']⟩, ⟨1, false, "path:/r".toList, ['t'], ['l']⟩, rfl, rfl,
    by decide, by unfold Reverses; decide, sort, documented, fragile _ _ fun orders => ?_⟩
  have distinguished := List.rel_of_pairwise_cons (orders_compareLinks_iff.mp orders) (List.mem_singleton_self _)
  simp [Distinguished] at distinguished

end Eafcc.CfgCenter
