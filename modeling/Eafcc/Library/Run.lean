import Mathlib.Data.List.Basic

namespace Transition

/-! # Runs of a labelled step relation -/

variable {σ α : Type}

/-- A step that was taken, with the states around it. -/
structure Taken (σ α : Type) where
  before : σ
  label : α
  after : σ

/-- The steps of a run, oldest first, and the state that it reaches. -/
inductive Run (step : σ → α → σ → Prop) (start : σ) : List (Taken σ α) → σ → Prop
  | nil : Run step start [] start
  | snoc {steps : List (Taken σ α)} {state next : σ} {label : α} :
      Run step start steps state → step state label next →
      Run step start (steps ++ [⟨state, label, next⟩]) next

variable {step : σ → α → σ → Prop} {start state : σ} {steps : List (Taken σ α)}

theorem Run.append {middle : σ} {more : List (Taken σ α)} (first : Run step start steps middle)
    (second : Run step middle more state) : Run step start (steps ++ more) state := by
  induction second with
  | nil => simpa using first
  | snoc _ taken ih =>
      rw [← List.append_assoc]
      exact ih.snoc taken

theorem Run.split_at {before after : List (Taken σ α)} {taken : Taken σ α}
    (run : Run step start (before ++ taken :: after) state) :
    Run step start before taken.before ∧ step taken.before taken.label taken.after ∧
      Run step taken.after after state := by
  generalize whole : before ++ taken :: after = steps at run
  induction run generalizing after with
  | nil => simp at whole
  | @snoc steps state next label earlier last ih =>
      rcases List.eq_nil_or_concat after with rfl | ⟨rest, final, rfl⟩
      · obtain ⟨rfl, same⟩ := List.append_inj' whole rfl
        cases same
        exact ⟨earlier, last, .nil⟩
      · rw [List.concat_eq_append, ← List.cons_append, ← List.append_assoc] at whole
        obtain ⟨init, same⟩ := List.append_inj' whole rfl
        cases same
        obtain ⟨first, here, later⟩ := ih init
        rw [List.concat_eq_append]
        exact ⟨first, here, later.snoc last⟩

/-- Every element of a list has a property that may speak of those before it. -/
def Each (P : List α → α → Prop) (items : List α) : Prop :=
  ∀ before item after, items = before ++ item :: after → P before item

theorem each_nil {P : List α → α → Prop} : Each P [] := by
  intro before item after whole
  simp at whole

theorem each_snoc {P : List α → α → Prop} {items : List α} {last : α} :
    Each P (items ++ [last]) ↔ Each P items ∧ P items last := by
  constructor
  · intro each
    refine ⟨fun before item after whole => each before item (after ++ [last]) ?_, each items last [] rfl⟩
    rw [whole, List.append_assoc, List.cons_append]
  · intro both before item after whole
    obtain ⟨each, final⟩ := both
    rcases List.eq_nil_or_concat after with rfl | ⟨rest, other, rfl⟩
    · obtain ⟨rfl, same⟩ := List.append_inj' whole rfl
      cases same
      exact final
    · rw [List.concat_eq_append, ← List.cons_append, ← List.append_assoc] at whole
      exact each before item rest (List.append_inj' whole rfl).1

/-- What holds at the start and is kept by every step holds throughout. -/
theorem Run.invariant {Inv : σ → Prop} (run : Run step start steps state) (init : Inv start)
    (keeps : ∀ state label next, Inv state → step state label next → Inv next) : Inv state := by
  induction run with
  | nil => exact init
  | snoc _ taken ih => exact keeps _ _ _ ih taken

theorem Run.invariant_after {Inv : σ → Prop} (run : Run step start steps state) (init : Inv start)
    (keeps : ∀ state label next, Inv state → step state label next → Inv next) :
    ∀ taken ∈ steps, Inv taken.after := by
  induction run with
  | nil => simp
  | snoc before taken ih =>
      simp only [List.forall_mem_append, List.forall_mem_singleton]
      exact ⟨ih, keeps _ _ _ (before.invariant init keeps) taken⟩

/-- The same of a property of the steps and the state that they reach, where
each step may be assumed to start in a state with a proved invariant. -/
theorem Run.history {Inv : σ → Prop} {History : List (Taken σ α) → σ → Prop}
    (run : Run step start steps state) (init : Inv start)
    (keeps : ∀ state label next, Inv state → step state label next → Inv next)
    (first : History [] start)
    (more : ∀ steps state label next, Inv state → History steps state →
      step state label next → History (steps ++ [⟨state, label, next⟩]) next) :
    History steps state := by
  induction run with
  | nil => exact first
  | snoc before taken ih => exact more _ _ _ _ (before.invariant init keeps) ih taken

/-- Where two properties of a step agree under an invariant, all steps of a run
have the one exactly if all have the other. -/
theorem Run.forall_iff {Inv : σ → Prop} {P Q : Taken σ α → Prop} (run : Run step start steps state)
    (init : Inv start) (keeps : ∀ state label next, Inv state → step state label next → Inv next)
    (each : ∀ state label next, Inv state → step state label next →
      (P ⟨state, label, next⟩ ↔ Q ⟨state, label, next⟩)) :
    (∀ taken ∈ steps, P taken) ↔ ∀ taken ∈ steps, Q taken := by
  induction run with
  | nil => simp
  | snoc before taken ih =>
      simp only [List.forall_mem_append, List.forall_mem_singleton, ih]
      rw [each _ _ _ (before.invariant init keeps) taken]

theorem each_const {P : α → Prop} {items : List α} :
    Each (fun _ => P) items ↔ ∀ item ∈ items, P item := by
  constructor
  · intro each item member
    obtain ⟨before, after, whole⟩ := List.append_of_mem member
    exact each before item after whole
  · intro all before item after whole
    exact all item (by simp [whole])

/-- Where two properties of a step and those before it agree under an invariant of
the run, all steps have the one exactly if all have the other. `H` is what is
assumed of the steps. -/
theorem Run.each_iff {Inv : List (Taken σ α) → σ → Prop} {H : Taken σ α → Prop}
    {P Q : List (Taken σ α) → Taken σ α → Prop} (run : Run step start steps state)
    (holds : ∀ taken ∈ steps, H taken) (init : Inv [] start)
    (keeps : ∀ steps state label next, Inv steps state → step state label next →
      H ⟨state, label, next⟩ → Inv (steps ++ [⟨state, label, next⟩]) next)
    (each : ∀ steps state label next, Inv steps state → step state label next →
      H ⟨state, label, next⟩ → (P steps ⟨state, label, next⟩ ↔ Q steps ⟨state, label, next⟩)) :
    Inv steps state ∧ (Each P steps ↔ Each Q steps) := by
  induction run with
  | nil => exact ⟨init, fun _ => each_nil, fun _ => each_nil⟩
  | snoc before taken ih =>
      obtain ⟨earlier, last⟩ := List.forall_mem_append.mp holds
      obtain ⟨inv, same⟩ := ih earlier
      have here := last _ (List.mem_singleton_self _)
      refine ⟨keeps _ _ _ _ inv taken here, ?_⟩
      rw [each_snoc, each_snoc, same, each _ _ _ _ inv taken here]

/-- A property of each step that starts in a state with an invariant, where both
the step and the invariant may need what is assumed of the steps. -/
theorem Run.forall_of (Inv : σ → Prop) {H P : Taken σ α → Prop} (run : Run step start steps state)
    (holds : ∀ taken ∈ steps, H taken) (init : Inv start)
    (keeps : ∀ state label next, Inv state → step state label next → H ⟨state, label, next⟩ → Inv next)
    (each : ∀ state label next, Inv state → step state label next → H ⟨state, label, next⟩ →
      P ⟨state, label, next⟩) : Inv state ∧ ∀ taken ∈ steps, P taken := by
  have whole : Inv state ∧ (Each (fun _ => P) steps ↔ Each (fun _ _ => True) steps) :=
    run.each_iff holds init (fun _ => keeps) fun _ state label next inv taken here =>
      iff_true_intro (each state label next inv taken here)
  exact ⟨whole.1, each_const.mp (whole.2.mpr fun _ _ _ _ => trivial)⟩

/-- A run stays within good states exactly if no step leads out of them, where
that is known of each step that starts in a good state. -/
theorem Run.forall_good_iff {Inv Good : σ → Prop} {Q : Taken σ α → Prop}
    (run : Run step start steps state) (init : Inv start)
    (keeps : ∀ state label next, Inv state → step state label next → Inv next) (good : Good start)
    (each : ∀ state label next, Inv state → Good state → step state label next →
      (Good next ↔ Q ⟨state, label, next⟩)) :
    ((∀ taken ∈ steps, Good taken.after) ↔ ∀ taken ∈ steps, Q taken) ∧
      ((∀ taken ∈ steps, Good taken.after) → Good state) := by
  induction run with
  | nil => simp [good]
  | snoc before taken ih =>
      obtain ⟨same, reached⟩ := ih
      simp only [List.forall_mem_append, List.forall_mem_singleton, ← same]
      refine ⟨and_congr_right fun earlier => ?_, fun all => all.2⟩
      exact each _ _ _ (before.invariant init keeps) (reached earlier) taken

end Transition
