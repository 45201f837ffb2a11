import Eafcc.Parser.Exact
import Eafcc.Model.Object

namespace Eafcc.RuleEngine

open Eafcc.Parser.Grammar

/-! # What accepted conditions evaluate to -/

namespace Condition

/-- A condition as the parser builds it: a leaf compares an identifier with a value, and
a node of a chain has at least two operands. -/
inductive Evaluable : Condition → Prop
  | leaf {lhs : Str} {op : LeafOperator} {value : Value} :
      IsIdent lhs → Evaluable (.leaf lhs op (some value))
  | not {cond : Condition} : Evaluable cond → Evaluable (.not cond)
  | and {conds : List Condition} :
      2 ≤ conds.length → (∀ cond ∈ conds, Evaluable cond) → Evaluable (.and conds)
  | or {conds : List Condition} :
      2 ≤ conds.length → (∀ cond ∈ conds, Evaluable cond) → Evaluable (.or conds)

mutual
/-- The boolean reading: a leaf holds where the context maps its name to its value. -/
def Holds (ctx : MatchContext) : Condition → Prop
  | .and conds => AllHold ctx conds
  | .or conds => AnyHolds ctx conds
  | .not cond => ¬ Holds ctx cond
  | .leaf lhs _ rhs => ∃ value, rhs = some value ∧ ctx.lookup lhs = some value

def AllHold (ctx : MatchContext) : List Condition → Prop
  | [] => True
  | cond :: conds => Holds ctx cond ∧ AllHold ctx conds

def AnyHolds (ctx : MatchContext) : List Condition → Prop
  | [] => False
  | cond :: conds => Holds ctx cond ∨ AnyHolds ctx conds
end

variable {ctx : MatchContext} {cond : Condition} {conds : List Condition}

theorem allHold_iff : AllHold ctx conds ↔ ∀ cond ∈ conds, cond.Holds ctx := by
  induction conds with
  | nil => simp [AllHold]
  | cons cond conds ih => rw [AllHold, ih, List.forall_mem_cons]

theorem anyHolds_iff : AnyHolds ctx conds ↔ ∃ cond ∈ conds, cond.Holds ctx := by
  induction conds with
  | nil => simp [AnyHolds]
  | cons cond conds ih => simp [AnyHolds, ih]

/-- The evaluation returns the boolean reading. -/
def Reads (ctx : MatchContext) (cond : Condition) : Prop :=
  ∃ value, cond.eval ctx = some value ∧ (value = true ↔ cond.Holds ctx)

theorem evalAnd_reads (each : ∀ cond ∈ conds, Reads ctx cond) :
    ∃ value, evalAnd ctx conds = some value ∧ (value = true ↔ AllHold ctx conds) := by
  induction conds with
  | nil => exact ⟨true, rfl, by simp [AllHold]⟩
  | cons cond conds ih =>
      obtain ⟨⟨value, evaluated, reading⟩, rest⟩ := List.forall_mem_cons.mp each
      rw [evalAnd, evaluated, AllHold, ← reading]
      cases value with
      | true => simpa using ih rest
      | false => exact ⟨false, rfl, by simp⟩

theorem evalOr_reads (each : ∀ cond ∈ conds, Reads ctx cond) :
    ∃ value, evalOr ctx conds = some value ∧ (value = true ↔ AnyHolds ctx conds) := by
  induction conds with
  | nil => exact ⟨false, rfl, by simp [AnyHolds]⟩
  | cons cond conds ih =>
      obtain ⟨⟨value, evaluated, reading⟩, rest⟩ := List.forall_mem_cons.mp each
      rw [evalOr, evaluated, AnyHolds, ← reading]
      cases value with
      | true => exact ⟨true, rfl, by simp⟩
      | false => simpa using ih rest

theorem evalLeaf_reads (ctx : MatchContext) (lhs : Str) (op : LeafOperator) (value : Value) :
    Reads ctx (.leaf lhs op (some value)) := by
  unfold Reads eval evalLeaf Holds
  cases op
  cases tag : ctx.lookup lhs with
  | none => exact ⟨false, rfl, by simp⟩
  | some found =>
      cases found with
      | str lv =>
          cases value with
          | str rv => exact ⟨decide (lv = rv), rfl, by simp [eq_comm]⟩

/-- A condition as the parser builds it evaluates to its boolean reading. -/
theorem Evaluable.reads (evaluable : Evaluable cond) : Reads ctx cond := by
  induction evaluable with
  | leaf _ => exact evalLeaf_reads ctx _ _ _
  | not _ ih =>
      obtain ⟨value, evaluated, reading⟩ := ih
      refine ⟨!value, by rw [eval, evaluated], ?_⟩
      rw [Holds, ← reading]
      cases value <;> simp
  | and _ _ ih => exact evalAnd_reads ih
  | or _ _ ih => exact evalOr_reads ih

theorem Evaluable.evaluates (evaluable : Evaluable cond) (ctx : MatchContext) : cond.eval ctx ≠ none := by
  obtain ⟨value, evaluated, -⟩ : Reads ctx cond := evaluable.reads
  simp [evaluated]

end Condition

end Eafcc.RuleEngine

namespace Eafcc.Parser.Grammar

open Eafcc.RuleEngine Eafcc.RuleEngine.Condition Eafcc.Model Eafcc.Parser.Rule

variable {unescape : Str → Option Str}

/-! ## The shape of the parser's trees -/

theorem chainTree_evaluable {build : List Condition → Condition} {trees : List Condition}
    (nonempty : trees ≠ []) (node : 2 ≤ trees.length → (build trees).Evaluable)
    (each : ∀ tree ∈ trees, tree.Evaluable) : (chainTree build trees).Evaluable := by
  match trees with
  | [] => exact absurd rfl nonempty
  | [tree] => exact each tree (by simp)
  | first :: second :: rest => exact node (by simp)

theorem DerivesAnds.ne_nil {tokens : List Token} {trees : List Condition} :
    DerivesAnds unescape tokens trees → trees ≠ []
  | .one _ => by simp
  | .more _ _ => by simp

theorem DerivesNots.ne_nil {tokens : List Token} {trees : List Condition} :
    DerivesNots unescape tokens trees → trees ≠ []
  | .one _ => by simp
  | .more _ _ => by simp

mutual
theorem DerivesOr.evaluable {tokens : List Token} {tree : Condition} :
    DerivesOr unescape tokens tree → tree.Evaluable
  | .chain ands => by
      have each := DerivesAnds.evaluable ands
      exact chainTree_evaluable ands.ne_nil (fun many => .or many each) each

theorem DerivesAnds.evaluable {tokens : List Token} {trees : List Condition} :
    DerivesAnds unescape tokens trees → ∀ tree ∈ trees, tree.Evaluable
  | .one first => by simpa using DerivesAnd.evaluable first
  | .more first rest => List.forall_mem_cons.mpr ⟨DerivesAnd.evaluable first, DerivesAnds.evaluable rest⟩

theorem DerivesAnd.evaluable {tokens : List Token} {tree : Condition} :
    DerivesAnd unescape tokens tree → tree.Evaluable
  | .chain nots => by
      have each := DerivesNots.evaluable nots
      exact chainTree_evaluable nots.ne_nil (fun many => .and many each) each

theorem DerivesNots.evaluable {tokens : List Token} {trees : List Condition} :
    DerivesNots unescape tokens trees → ∀ tree ∈ trees, tree.Evaluable
  | .one first => by simpa using DerivesNot.evaluable first
  | .more first rest => List.forall_mem_cons.mpr ⟨DerivesNot.evaluable first, DerivesNots.evaluable rest⟩

theorem DerivesNot.evaluable {tokens : List Token} {tree : Condition} :
    DerivesNot unescape tokens tree → tree.Evaluable
  | .plain atom => DerivesAtom.evaluable atom
  | .bang atom => .not (DerivesAtom.evaluable atom)

theorem DerivesAtom.evaluable {tokens : List Token} {tree : Condition} :
    DerivesAtom unescape tokens tree → tree.Evaluable
  | .leaf ident _ => .leaf ident
  | .paren inside => DerivesOr.evaluable inside
end

mutual
theorem DerivesOr.tokens_ne_nil {tokens : List Token} {tree : Condition} :
    DerivesOr unescape tokens tree → tokens ≠ []
  | .chain ands => DerivesAnds.tokens_ne_nil ands

theorem DerivesAnds.tokens_ne_nil {tokens : List Token} {trees : List Condition} :
    DerivesAnds unescape tokens trees → tokens ≠ []
  | .one first => DerivesAnd.tokens_ne_nil first
  | .more _ _ => by simp

theorem DerivesAnd.tokens_ne_nil {tokens : List Token} {tree : Condition} :
    DerivesAnd unescape tokens tree → tokens ≠ []
  | .chain nots => DerivesNots.tokens_ne_nil nots

theorem DerivesNots.tokens_ne_nil {tokens : List Token} {trees : List Condition} :
    DerivesNots unescape tokens trees → tokens ≠ []
  | .one first => DerivesNot.tokens_ne_nil first
  | .more _ _ => by simp

theorem DerivesNot.tokens_ne_nil {tokens : List Token} {tree : Condition} :
    DerivesNot unescape tokens tree → tokens ≠ []
  | .plain atom => DerivesAtom.tokens_ne_nil atom
  | .bang _ => by simp

theorem DerivesAtom.tokens_ne_nil {tokens : List Token} {tree : Condition} :
    DerivesAtom unescape tokens tree → tokens ≠ []
  | .leaf _ _ => by simp
  | .paren _ => by simp
end

/-- What the parser returns, with or without something left over. -/
theorem doParse_result {text rest : Str} {cond : Condition}
    (parsed : doParse unescape text = some (rest, cond)) :
    (∃ seen, seen ≠ [] ∧ text = seen ++ rest) ∧ cond.Evaluable := by
  obtain ⟨tokens, derived, lexed⟩ := exprOrDepth_sound _ _ _ _ parsed
  refine ⟨?_, derived.evaluable⟩
  obtain ⟨first, others, rfl⟩ := List.exists_cons_of_ne_nil derived.tokens_ne_nil
  have shorter := lexed.shorter (derived.solid first (by simp))
  obtain ⟨seen, rfl⟩ := lexed.suffix
  refine ⟨seen, ?_, rfl⟩
  rintro rfl
  exact Nat.lt_irrefl _ shorter

/-- The parser returns a proper suffix of its input and a condition without a leaf that
panics, and every rule that is accepted evaluates to its boolean reading. -/
theorem loaded_rule_reads {Pri : Type} (crates : Crates Pri) :
    (∀ text rest cond, doParse crates.unescape text = some (rest, cond) →
      (∃ seen, seen ≠ [] ∧ text = seen ++ rest) ∧ cond.Evaluable) ∧
    ∀ bytes ruleObj, Rule.loadFromSlice crates bytes = .ok ruleObj →
      ∀ ctx, ∃ value, ruleObj.spec.rule.eval ctx = some value ∧
        (value = true ↔ ruleObj.spec.rule.Holds ctx) := by
  refine ⟨fun text rest cond => doParse_result, fun bytes ruleObj decoded ctx => ?_⟩
  obtain ⟨ruleStr, parsed⟩ := Rule.loadFromSlice_parsed decoded
  exact (doParse_result parsed).2.reads

end Eafcc.Parser.Grammar
