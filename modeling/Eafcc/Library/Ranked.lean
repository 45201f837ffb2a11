import Mathlib.Data.Prod.Lex
import Eafcc.Text

namespace Ranked

/-! # Choice by rank

Candidates have a rank in a linear order, and some of them mask.  In an
arrangement by decreasing rank with masking candidates first among equals, the
first candidate with a property has the greatest rank of all that have it, and
it masks if any of that rank does.
-/

variable {α ρ : Type} [LinearOrder ρ] (rank : α → ρ) (masks : α → Bool)

/-- `a` may stand before `b` in an arrangement. -/
def Before (a b : α) : Prop := rank b < rank a ∨ (rank a = rank b ∧ (masks b = true → masks a = true))

/-- Of greatest rank among the candidates that satisfy `p`. -/
def Top (p : α → Prop) (a : α) : Prop := p a ∧ ∀ b, p b → rank b ≤ rank a

variable {rank masks} {p : α → Bool} {a b c : α} {l : List α}

theorem Before.total (a b : α) : Before rank masks a b ∨ Before rank masks b a := by
  rcases lt_trichotomy (rank a) (rank b) with lower | same | higher
  · exact .inr (.inl lower)
  · by_cases masking : masks a = true
    · exact .inl (.inr ⟨same, fun _ => masking⟩)
    · exact .inr (.inr ⟨same.symm, fun other => absurd other masking⟩)
  · exact .inl (.inl higher)

theorem Before.trans (first : Before rank masks a b) (second : Before rank masks b c) :
    Before rank masks a c := by
  rcases first with higher | ⟨same, masking⟩
  · rcases second with further | ⟨level, -⟩
    · exact .inl (further.trans higher)
    · exact .inl (level ▸ higher)
  · rcases second with further | ⟨level, also⟩
    · exact .inl (same ▸ further)
    · exact .inr ⟨same.trans level, fun last => masking (also last)⟩

instance : Std.Total (Before rank masks) := ⟨Before.total⟩
instance : IsTrans α (Before rank masks) := ⟨fun _ _ _ => Before.trans⟩

theorem Before.rank_le (before : Before rank masks a b) : rank b ≤ rank a := by
  rcases before with higher | ⟨same, -⟩
  · exact higher.le
  · exact same.ge

theorem Top.rank_eq {q : α → Prop} (first : Top rank q a) (second : Top rank q b) :
    rank a = rank b :=
  le_antisymm (second.2 a first.1) (first.2 b second.1)

theorem top_congr {q q' : α → Prop} (same : ∀ x, q x ↔ q' x) : Top rank q a ↔ Top rank q' a := by
  simp only [Top, same]

/-! ### Two groups of candidates -/

section Groups

variable {q n : α → Prop} {level : ρ}

theorem top_or_iff : Top rank (fun x => q x ∨ n x) a ↔
    (Top rank q a ∧ ∀ b, n b → rank b ≤ rank a) ∨ (Top rank n a ∧ ∀ b, q b → rank b ≤ rank a) := by
  constructor
  · rintro ⟨either, greatest⟩
    have above : ∀ b, n b → rank b ≤ rank a := fun b holds => greatest b (.inr holds)
    have beside : ∀ b, q b → rank b ≤ rank a := fun b holds => greatest b (.inl holds)
    rcases either with first | second
    · exact .inl ⟨⟨first, beside⟩, above⟩
    · exact .inr ⟨⟨second, above⟩, beside⟩
  · rintro (⟨top, above⟩ | ⟨top, beside⟩)
    · exact ⟨.inl top.1, fun b either => either.elim (top.2 b) (above b)⟩
    · exact ⟨.inr top.1, fun b either => either.elim (beside b) (top.2 b)⟩

/-- A group of one rank adds nothing where it is empty or outranked. -/
theorem top_or_outranked (same : ∀ b, n b → rank b = level)
    (outranked : (∃ b, n b) → ∃ b, q b ∧ level < rank b) :
    Top rank (fun x => q x ∨ n x) a ↔ Top rank q a := by
  rw [top_or_iff]
  constructor
  · rintro (⟨top, -⟩ | ⟨top, beside⟩)
    · exact top
    · obtain ⟨b, holds, above⟩ := outranked ⟨a, top.1⟩
      rw [← same a top.1] at above
      exact absurd (beside b holds) above.not_ge
  · intro top
    refine .inl ⟨top, fun b added => ?_⟩
    obtain ⟨c, holds, above⟩ := outranked ⟨b, added⟩
    rw [same b added]
    exact above.le.trans (top.2 c holds)

/-- A group of one rank is on top alone where it outranks all others. -/
theorem top_or_leads (same : ∀ b, n b → rank b = level) (some : ∃ b, n b)
    (leads : ∀ b, q b → rank b < level) : Top rank (fun x => q x ∨ n x) a ↔ n a := by
  rw [top_or_iff]
  constructor
  · rintro (⟨top, above⟩ | ⟨top, -⟩)
    · obtain ⟨b, added⟩ := some
      have higher := above b added
      rw [same b added] at higher
      exact absurd (leads a top.1) higher.not_gt
    · exact top.1
  · intro added
    refine .inr ⟨⟨added, fun b other => ?_⟩, fun b holds => ?_⟩
    · exact ((same b other).trans (same a added).symm).le
    · rw [same a added]
      exact (leads b holds).le

/-- A group of one rank joins the top where that has the same rank. -/
theorem top_or_joins (same : ∀ b, n b → rank b = level)
    (highest : ∀ b, q b → rank b ≤ level) (reached : ∃ b, q b ∧ rank b = level) :
    Top rank (fun x => q x ∨ n x) a ↔ Top rank q a ∨ n a := by
  rw [top_or_iff]
  obtain ⟨top, holds, there⟩ := reached
  constructor
  · rintro (⟨top, -⟩ | ⟨top, -⟩)
    · exact .inl top
    · exact .inr top.1
  · rintro (greatest | added)
    · refine .inl ⟨greatest, fun b other => ?_⟩
      rw [same b other, ← there]
      exact greatest.2 top holds
    · refine .inr ⟨⟨added, fun b other => ?_⟩, fun b first => ?_⟩
      · exact ((same b other).trans (same a added).symm).le
      · rw [same a added]
        exact highest b first

end Groups

/-- The greatest of one group stand in a relation that keeps the rank to the greatest of
another, where the whole groups do. -/
theorem top_related {β : Type} {rank' : β → ρ} {q : α → Prop} {n : β → Prop} {R : α → β → Prop} {b : β}
    (same : ∀ a b, R a b → rank a = rank' b) (back : ∀ b, n b → ∃ a, q a ∧ R a b) (related : R a b)
    (holds : n b) (top : Top rank q a) : Top rank' n b := by
  refine ⟨holds, fun other also => ?_⟩
  obtain ⟨first, has, stands⟩ := back other also
  rw [← same a b related, ← same first other stands]
  exact top.2 first has

/-- Sorting by any relation that decides `Before` arranges a list. -/
theorem insertionSort_arranged {r : α → α → Prop} [DecidableRel r]
    (same : ∀ a b, r a b ↔ Before rank masks a b) (l : List α) :
    (l.insertionSort r).Pairwise (Before rank masks) := by
  obtain rfl : r = Before rank masks := funext fun a => funext fun b => propext (same a b)
  exact List.pairwise_insertionSort _ l

theorem before_of_find (arranged : l.Pairwise (Before rank masks)) (found : l.find? p = some a) :
    ∀ b ∈ l, p b = true → b = a ∨ Before rank masks a b := by
  induction l with
  | nil => simp at found
  | cons head tail ih =>
      obtain ⟨first, rest⟩ := List.pairwise_cons.mp arranged
      intro b member holds
      by_cases accepted : p head = true
      · rw [List.find?_cons_of_pos accepted, Option.some.injEq] at found
        subst found
        rcases List.mem_cons.mp member with same | later
        · exact .inl same
        · exact .inr (first b later)
      · rw [List.find?_cons_of_neg accepted] at found
        rcases List.mem_cons.mp member with same | later
        · exact absurd (same ▸ holds) accepted
        · exact ih rest found b later holds

/-- The first candidate with a property in an arrangement. -/
theorem top_of_find (arranged : l.Pairwise (Before rank masks)) (found : l.find? p = some a) :
    Top rank (fun b => b ∈ l ∧ p b = true) a ∧
    (masks a = false → ∀ b, Top rank (fun b => b ∈ l ∧ p b = true) b → masks b = false) := by
  have before := before_of_find arranged found
  have top : Top rank (fun b => b ∈ l ∧ p b = true) a := by
    refine ⟨⟨List.mem_of_find?_eq_some found, List.find?_some found⟩, fun b ⟨member, holds⟩ => ?_⟩
    rcases before b member holds with same | later
    · exact (congrArg rank same).le
    · exact later.rank_le
  refine ⟨top, fun unmasked b other => ?_⟩
  rcases before b other.1.1 other.1.2 with same | later
  · exact same ▸ unmasked
  · rcases later with higher | ⟨-, masking⟩
    · exact absurd (top.rank_eq other) higher.ne'
    · by_contra masked
      simp [masking (by simpa using masked)] at unmasked

/-! ### An arrangement with a favourite -/

section Favourite

variable [DecidableEq α] {favourite : α}

/-- The rank, then the masking candidates, then the favourite, then the others. -/
def standing (rank : α → ρ) (masks : α → Bool) (favourite a : α) : ρ ×ₗ Nat :=
  toLex (rank a, if masks a then 2 else if a = favourite then 1 else 0)

def favouring (rank : α → ρ) (masks : α → Bool) (favourite : α) (l : List α) : List α :=
  l.insertionSort fun a b => standing rank masks favourite b ≤ standing rank masks favourite a

theorem before_of_standing (stands : standing rank masks favourite b ≤ standing rank masks favourite a) :
    Before rank masks a b := by
  unfold standing at stands
  rw [Prod.Lex.toLex_le_toLex] at stands
  rcases stands with higher | ⟨same, lower⟩
  · exact .inl higher
  · refine .inr ⟨same.symm, fun masking => ?_⟩
    by_contra open_
    simp only [masking, if_true, open_, if_false] at lower
    split at lower <;> omega

theorem favouring_perm (l : List α) : (favouring rank masks favourite l).Perm l :=
  List.perm_insertionSort _ l

theorem favouring_standing (l : List α) : (favouring rank masks favourite l).Pairwise
    (Before (standing rank masks favourite) fun _ => false) := by
  apply insertionSort_arranged
  intro a b
  unfold Before
  rw [le_iff_lt_or_eq]
  simp [eq_comm]

theorem favouring_arranged (l : List α) :
    (favouring rank masks favourite l).Pairwise (Before rank masks) :=
  (favouring_standing l).imp fun before => before_of_standing before.rank_le

/-- The favourite is found first, where it is of the greatest rank and none of them masks. -/
theorem find_favouring (top : Top rank (fun b => b ∈ l ∧ p b = true) favourite)
    (unmasked : ∀ b, Top rank (fun b => b ∈ l ∧ p b = true) b → masks b = false) :
    (favouring rank masks favourite l).find? p = some favourite := by
  have perm : (favouring rank masks favourite l).Perm l := favouring_perm l
  cases found : (favouring rank masks favourite l).find? p with
  | none =>
      have missing := List.find?_eq_none.mp found favourite (perm.mem_iff.mpr top.1.1)
      exact absurd top.1.2 missing
  | some first =>
      have stands := (top_of_find (favouring_standing l) found).1
      have listed : first ∈ l := perm.mem_iff.mp stands.1.1
      have higher := stands.2 favourite ⟨perm.mem_iff.mpr top.1.1, top.1.2⟩
      unfold standing at higher
      rw [Prod.Lex.toLex_le_toLex] at higher
      rcases higher with above | ⟨same, weight⟩
      · exact absurd (top.2 first ⟨listed, stands.1.2⟩) (not_le.mpr above)
      · have also : Top rank (fun b => b ∈ l ∧ p b = true) first :=
          ⟨⟨listed, stands.1.2⟩, fun b has => (top.2 b has).trans same.le⟩
        rw [unmasked favourite top, unmasked first also] at weight
        by_contra other
        have different : first ≠ favourite := fun same => other (congrArg some same)
        simp [different] at weight

end Favourite
end Ranked
