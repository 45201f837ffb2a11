import Eafcc.Text

namespace Eafcc.RuleEngine

inductive LeafOperator where
  | eq
deriving Repr, DecidableEq

inductive Value where
  | str (text : Str)
deriving Repr, DecidableEq

/-- The tags a client sends with a query. -/
abbrev MatchContext := Finmap (fun _ : Str => Value)

inductive Condition where
  | and (conds : List Condition)
  | or (conds : List Condition)
  | not (cond : Condition)
  | leaf (lhs : Str) (op : LeafOperator) (rhs : Option Value)
deriving Repr

namespace Condition

/-- A leaf over the context. `none` is the panic of the branch for unary
operators, which is reached only after the tag was found. -/
def evalLeaf (ctx : MatchContext) (lhs : Str) (op : LeafOperator) (rhs : Option Value) :
    Option Bool :=
  match ctx.lookup lhs with
  | none => some false
  | some lhsValue =>
      match rhs with
      | some rhsValue =>
          match op with
          | .eq =>
              match lhsValue, rhsValue with
              | .str lv, .str rv => some (decide (lv = rv))
      | none => none

mutual
/-- The value of a condition, `none` when the evaluation panics. -/
def eval (ctx : MatchContext) : Condition → Option Bool
  | .and conds => evalAnd ctx conds
  | .or conds => evalOr ctx conds
  | .not cond =>
      match eval ctx cond with
      | some value => some (!value)
      | none => none
  | .leaf lhs op rhs => evalLeaf ctx lhs op rhs

/-- The loop of a conjunction, which stops at the first false operand. -/
def evalAnd (ctx : MatchContext) : List Condition → Option Bool
  | [] => some true
  | cond :: conds =>
      match eval ctx cond with
      | some true => evalAnd ctx conds
      | some false => some false
      | none => none

/-- The loop of a disjunction, which stops at the first true operand. -/
def evalOr (ctx : MatchContext) : List Condition → Option Bool
  | [] => some false
  | cond :: conds =>
      match eval ctx cond with
      | some false => evalOr ctx conds
      | some true => some true
      | none => none
end

end Condition

end Eafcc.RuleEngine
