import Eafcc.Parser.Rule

namespace Eafcc.Parser.Grammar

open Nom Eafcc.RuleEngine

/-! # The grammar of rule expressions

```
or   = and ('||' and)*
and  = not ('&&' not)*
not  = '!'? atom
atom = ident '==' literal | '(' or ')'
```

The grammar is stated over tokens, without reference to the parser except for
the literals, whose extent and value `rhsLiteral` decides.
-/

inductive Token where
  | ident (name : Str)
  | equals
  | literal (text : Str)
  | bang
  | ampAmp
  | barBar
  | openParen
  | closeParen

def Token.text : Token → Str
  | .ident name => name
  | .equals => ['=', '=']
  | .literal text => text
  | .bang => ['!']
  | .ampAmp => ['&', '&']
  | .barBar => ['|', '|']
  | .openParen => ['(']
  | .closeParen => [')']

def isIdentStart (c : Char) : Bool := isAlpha c || c == '_'
def isIdentRest (c : Char) : Bool := isAlphanum c || c == '_'

/-- `[A-Za-z_][A-Za-z0-9_]*` -/
def IsIdent : Str → Prop
  | [] => False
  | head :: tail => isIdentStart head = true ∧ ∀ c ∈ tail, isIdentRest c = true

/-- A run of spaces, tabs, carriage returns and line feeds. -/
def Spaces (text : Str) : Prop := ∀ c ∈ text, c = ' ' ∨ c = '\t' ∨ c = '\r' ∨ c = '\n'

/-- A text that spells tokens with any whitespace between them and at both ends. -/
inductive Spells : List Token → Str → Prop
  | nil : Spaces spaces → Spells [] spaces
  | cons : Spaces spaces → Spells tokens text → Spells (token :: tokens) (spaces ++ token.text ++ text)

/-- A chain of one element is that element, a longer one is one flat node. -/
def chainTree (build : List Condition → Condition) : List Condition → Condition
  | [cond] => cond
  | conds => build conds

section Derivations

variable (unescape : Str → Option Str)

mutual
inductive DerivesOr : List Token → Condition → Prop
  | chain : DerivesAnds tokens trees → DerivesOr tokens (chainTree .or trees)

/-- `and ('||' and)*` -/
inductive DerivesAnds : List Token → List Condition → Prop
  | one : DerivesAnd tokens tree → DerivesAnds tokens [tree]
  | more : DerivesAnd tokens tree → DerivesAnds others trees →
      DerivesAnds (tokens ++ .barBar :: others) (tree :: trees)

inductive DerivesAnd : List Token → Condition → Prop
  | chain : DerivesNots tokens trees → DerivesAnd tokens (chainTree .and trees)

/-- `not ('&&' not)*` -/
inductive DerivesNots : List Token → List Condition → Prop
  | one : DerivesNot tokens tree → DerivesNots tokens [tree]
  | more : DerivesNot tokens tree → DerivesNots others trees →
      DerivesNots (tokens ++ .ampAmp :: others) (tree :: trees)

inductive DerivesNot : List Token → Condition → Prop
  | plain : DerivesAtom tokens tree → DerivesNot tokens tree
  | bang : DerivesAtom tokens tree → DerivesNot (.bang :: tokens) (.not tree)

inductive DerivesAtom : List Token → Condition → Prop
  | leaf : IsIdent name → Rule.rhsLiteral unescape text = some ([], value) →
      DerivesAtom [.ident name, .equals, .literal text] (.leaf name .eq (some value))
  | paren : DerivesOr tokens tree → DerivesAtom (.openParen :: (tokens ++ [.closeParen])) tree
end

/-- A text of the grammar and its tree. -/
def Derives (text : Str) (tree : Condition) : Prop :=
  ∃ tokens, Spells tokens text ∧ DerivesOr unescape tokens tree

end Derivations

end Eafcc.Parser.Grammar
