import Eafcc.Library.Nom
import Eafcc.RuleEngine

namespace Eafcc.Parser.Rule

open Nom Eafcc.RuleEngine

/-! # The rule expression parser

The parser of `src/parser/rule.rs`.  The crate `unescape` is not part of the
repository and is a parameter: it maps the text between the quotes of a literal
to the text it stands for, or to `none`.
-/

def identifier : Parser Str :=
  recognize (pair (alt alpha1 (tag ['_'])) (many0 (alt alphanumeric1 (tag ['_']))))

/-- `tag` returns the text it was asked for, so the source's panic for any
other operator text has no counterpart. -/
def leafBinaryOp : Parser LeafOperator := map (tag ['=', '=']) (fun _ => .eq)

def ws (inner : Parser α) : Parser α := delimited multispace0 inner multispace0

/-! ## String literals -/

def normal : Parser Str :=
  takeTill1 (fun c => c == '\\' || c == '"' || (c.toNat < 32 || c.toNat == 127))

def isAsciiHexdigit (c : Char) : Bool :=
  c.isDigit || ('a' ≤ c && c ≤ 'f') || ('A' ≤ c && c ≤ 'F')

def parseHex : Parser Str :=
  preceded (peek (tag ['u'])) (takeWhileMN 5 5 (fun c => isAsciiHexdigit c || c == 'u'))

def escapable : Parser Str :=
  alt (tag ['"']) <| alt (tag ['\\']) <| alt (tag ['/']) <| alt (tag ['b']) <|
  alt (tag ['f']) <| alt (tag ['n']) <| alt (tag ['r']) <| alt (tag ['t']) parseHex

def parseStr : Parser Str := escaped normal '\\' escapable

def string : Parser Str :=
  alt (tag ['"', '"']) (delimited (tag ['"']) parseStr (tag ['"']))

/-! ## Expressions -/

section Expressions

variable (unescape : Str → Option Str)

def unescapeStr (i : Str) : Option Value :=
  match unescape i with
  | some t => some (.str t)
  | none => none

def rhsLiteral : Parser Value := mapRes string (unescapeStr unescape)

def leafExpr : Parser Condition :=
  map (pair (ws identifier) (pair (ws leafBinaryOp) (ws (rhsLiteral unescape))))
    (fun (ident, op, val) => .leaf ident op (some val))

/-- The grammar's recursion goes through parentheses only, so the parsers below
take the parser for what stands between them. -/
def leafExprOrParen (exprNoParen : Parser Condition) : Parser Condition :=
  alt (leafExpr unescape) (delimited (ws (tag ['('])) exprNoParen (ws (tag [')'])))

def exprNot (exprNoParen : Parser Condition) : Parser Condition :=
  alt (map (pair (tag ['!']) (leafExprOrParen unescape exprNoParen)) (fun (_, cond) => .not cond))
    (leafExprOrParen unescape exprNoParen)

/-- One operand, or a flat node over two and more of them. -/
def flatten (build : List Condition → Condition) (first : Condition) (more : List Condition) :
    Condition :=
  if more.length = 0 then first else build (first :: more)

/-- `expr_and` and `expr_or` are one function of the operator's text, the node
and the operand. -/
def exprChain (op : Str) (build : List Condition → Condition) (operand : Parser Condition) :
    Parser Condition :=
  map (pair (ws operand) (many0 (preceded (ws (tag op)) (ws operand))))
    (fun (first, more) => flatten build first more)

def exprAnd (exprNoParen : Parser Condition) : Parser Condition :=
  exprChain ['&', '&'] .and (exprNot unescape exprNoParen)

def exprOr (exprNoParen : Parser Condition) : Parser Condition :=
  exprChain ['|', '|'] .or (exprAnd unescape exprNoParen)

/-- `expr_or` with at most `depth` levels of parentheses inside it. -/
def exprOrDepth : Nat → Parser Condition
  | 0 => fun _ => none
  | depth + 1 => exprOr unescape (exprOrDepth depth)

/-- A text has no more nested parentheses than characters. -/
def doParse (i : Str) : IResult Condition := exprOrDepth unescape (i.length + 1) i

end Expressions

end Eafcc.Parser.Rule
