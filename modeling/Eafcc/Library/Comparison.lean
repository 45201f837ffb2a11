import Mathlib.Data.List.TakeWhile

namespace Comparison

/-! # Comparisons that order a list

A sort that takes a comparison has to be told how the elements of its list stand to
each other.  The laws are those of a total order, asked only of the elements of the
list.
-/

variable {α : Type} (compare : α → α → Ordering)

/-- The comparison the other way round has the opposite outcome. -/
def Reverses (a b : α) : Prop := compare a b = (compare b a).swap

/-- What two comparisons in a row have in common, the comparison over both has too. -/
def Chains (a b c : α) : Prop :=
  ∀ outcome, compare a b = outcome → compare b c = outcome → compare a c = outcome

/-- The comparison is a total order of the elements of a list. -/
structure Orders (items : List α) : Prop where
  reverses : items.Pairwise (Reverses compare)
  chains : ∀ a ∈ items, ∀ b ∈ items, ∀ c ∈ items, Chains compare a b c

/-- The elements in the order of the comparison. -/
def Sorted (items : List α) : Prop := items.Pairwise fun a b => compare a b ≠ .gt

variable {compare} {a b c : α} {items : List α}

theorem Reverses.symm (reverses : Reverses compare a b) : Reverses compare b a := by
  rw [Reverses, reverses, Ordering.swap_swap]

theorem Reverses.gt_iff (reverses : Reverses compare a b) : compare a b = .gt ↔ compare b a = .lt := by
  rw [reverses]
  cases compare b a <;> simp

theorem Orders.tail (orders : Orders compare (a :: items)) : Orders compare items where
  reverses := (List.pairwise_cons.mp orders.reverses).2
  chains a inA b inB c inC := orders.chains a (by simp [inA]) b (by simp [inB]) c (by simp [inC])

/-- What does not come after something does not come after what follows that. -/
theorem not_after_trans (ab : Reverses compare a b) (bc : Reverses compare b c)
    (ac : Reverses compare a c) (around : Chains compare c a b) (along : Chains compare b c a)
    (straight : Chains compare a b c) (first : compare a b ≠ .gt) (second : compare b c ≠ .gt) :
    compare a c ≠ .gt := by
  intro after
  have below : compare c a = .lt := ac.gt_iff.mp after
  cases here : compare a b with
  | lt => exact second (bc.gt_iff.mpr (around .lt below here))
  | eq =>
      cases there : compare b c with
      | lt => exact first (ab.gt_iff.mpr (along .lt there below))
      | eq =>
          rw [straight .eq here there] at after
          cases after
      | gt => exact second there
  | gt => exact first here

/-- A list that a comparison orders can be sorted by it. -/
theorem Orders.exists_sorted (orders : Orders compare items) :
    ∃ sorted, sorted.Perm items ∧ Sorted compare sorted := by
  induction items with
  | nil => exact ⟨[], .refl _, .nil⟩
  | cons a items ih =>
      obtain ⟨sorted, perm, order⟩ := ih orders.tail
      let before : α → Bool := fun x => compare x a == .lt
      have whole : sorted.takeWhile before ++ sorted.dropWhile before = sorted :=
        List.takeWhile_append_dropWhile
      have listed : ∀ x ∈ a :: sorted, x ∈ a :: items := fun x => (perm.cons a).mem_iff.mp
      have chains : ∀ x ∈ a :: sorted, ∀ y ∈ a :: sorted, ∀ z ∈ a :: sorted, Chains compare x y z :=
        fun x inX y inY z inZ => orders.chains x (listed x inX) y (listed y inY) z (listed z inZ)
      have reverses : ∀ x ∈ sorted, Reverses compare a x := fun x member =>
        (List.pairwise_cons.mp orders.reverses).1 x (perm.mem_iff.mp member)
      have steps : sorted.Pairwise (Reverses compare) :=
        (perm.pairwise_iff Reverses.symm).mpr orders.tail.reverses
      -- The new element goes in front of the first one that is not before it.
      have later : ∀ x ∈ sorted.dropWhile before, compare a x ≠ .gt := by
        cases rest : sorted.dropWhile before with
        | nil => simp
        | cons first rest' =>
            have sublist : (first :: rest').Sublist sorted := rest ▸ List.dropWhile_sublist before
            have inside : ∀ x ∈ first :: rest', x ∈ sorted := fun x member => sublist.subset member
            have stops : compare first a ≠ .lt := by
              have fails := List.head?_dropWhile_not before sorted
              rw [rest] at fails
              simpa [before] using fails
            have here : compare a first ≠ .gt := fun after =>
              stops ((reverses first (inside first (by simp))).gt_iff.mp after)
            intro x member
            rcases List.mem_cons.mp member with rfl | member
            · exact here
            · have inX := inside x (List.mem_cons_of_mem _ member)
              have inFirst := inside first (by simp)
              refine not_after_trans (reverses first inFirst)
                ((List.pairwise_cons.mp (steps.sublist sublist)).1 x member) (reverses x inX)
                (chains x (by simp [inX]) a (by simp) first (by simp [inFirst]))
                (chains first (by simp [inFirst]) x (by simp [inX]) a (by simp))
                (chains a (by simp) first (by simp [inFirst]) x (by simp [inX])) here ?_
              exact (List.pairwise_cons.mp (order.sublist sublist)).1 x member
      refine ⟨sorted.takeWhile before ++ a :: sorted.dropWhile before, ?_, ?_⟩
      · rw [List.perm_middle.congr_left, whole]
        exact perm.cons a
      · rw [← whole] at order
        obtain ⟨front, back, across⟩ := List.pairwise_append.mp order
        refine List.pairwise_append.mpr ⟨front, List.pairwise_cons.mpr ⟨later, back⟩, fun x inX y inY => ?_⟩
        rcases List.mem_cons.mp inY with rfl | inY
        · have below := List.mem_takeWhile_imp inX
          simp only [before, beq_iff_eq] at below
          simp [below]
        · exact across x inX y inY

end Comparison
