import Eafcc.Parser.Exact
import Eafcc.Parser.Unescape

namespace Eafcc.Parser.RoundTrip

open Nom Eafcc.RuleEngine Eafcc.Parser.Rule Eafcc.Parser.Grammar Eafcc.Parser.Unescape

/-! # Reading back a printed condition -/

/-! ## Printing -/

/-- The letter of an escape and the character it stands for. -/
def letterEscapes : List (Char × Char) :=
  [('"', '"'), ('\\', '\\'), ('b', Char.ofNat 8), ('f', Char.ofNat 12), ('n', '\n'), ('r', '\r'),
    ('t', '\t')]

/-- The characters that a literal holds only as an escape. -/
def MustEscape (c : Char) : Prop := c = '"' ∨ c = '\\' ∨ c.toNat < 32 ∨ c.toNat = 127

/-- The ways to write one character between the quotes. -/
inductive Spelling : Char → Str → Prop
  | plain {c : Char} : ¬ MustEscape c → Spelling c [c]
  | letter {e c : Char} : (e, c) ∈ letterEscapes → Spelling c ['\\', e]
  | unicode {c h₁ h₂ h₃ h₄ : Char} : hexValue [h₁, h₂, h₃, h₄] = some c.toNat →
      Spelling c ['\\', 'u', h₁, h₂, h₃, h₄]

inductive Spellings : Str → Str → Prop
  | nil : Spellings [] []
  | cons {c : Char} {s token body : Str} :
      Spelling c token → Spellings s body → Spellings (c :: s) (token ++ body)

def quoted (body : Str) : Str := '"' :: (body ++ ['"'])

mutual
/-- The tokens of a condition, with parentheses around every operand that is
not a leaf. -/
inductive Printed : Condition → List Token → Prop
  | leaf {name s body : Str} : IsIdent name → Spellings s body →
      Printed (.leaf name .eq (some (.str s))) [.ident name, .equals, .literal (quoted body)]
  | not {cond : Condition} {tokens : List Token} :
      Operand cond tokens → Printed (.not cond) (.bang :: tokens)
  | and {conds : List Condition} {tokens : List Token} :
      2 ≤ conds.length → Operands .ampAmp conds tokens → Printed (.and conds) tokens
  | or {conds : List Condition} {tokens : List Token} :
      2 ≤ conds.length → Operands .barBar conds tokens → Printed (.or conds) tokens

inductive Operand : Condition → List Token → Prop
  | leaf {lhs : Str} {op : LeafOperator} {rhs : Option Value} {tokens : List Token} :
      Printed (.leaf lhs op rhs) tokens → Operand (.leaf lhs op rhs) tokens
  | parens {cond : Condition} {tokens : List Token} :
      (∀ lhs op rhs, cond ≠ .leaf lhs op rhs) → Printed cond tokens →
      Operand cond (.openParen :: (tokens ++ [.closeParen]))

inductive Operands : Token → List Condition → List Token → Prop
  | one {separator : Token} {cond : Condition} {tokens : List Token} :
      Operand cond tokens → Operands separator [cond] tokens
  | more {separator : Token} {cond : Condition} {conds : List Condition}
      {tokens others : List Token} :
      Operand cond tokens → Operands separator conds others →
      Operands separator (cond :: conds) (tokens ++ separator :: others)
end

/-- A text of a condition, with any whitespace between its tokens. -/
def PrintedAs (cond : Condition) (text : Str) : Prop :=
  ∃ tokens, Printed cond tokens ∧ Spells tokens text

mutual
/-- The conditions a rule file can express: no chain of fewer than two operands,
and leaves that compare an identifier with a string. -/
def Printable : Condition → Prop
  | .and conds => 2 ≤ conds.length ∧ AllPrintable conds
  | .or conds => 2 ≤ conds.length ∧ AllPrintable conds
  | .not cond => Printable cond
  | .leaf lhs _ rhs => IsIdent lhs ∧ rhs ≠ none

def AllPrintable : List Condition → Prop
  | [] => True
  | cond :: conds => Printable cond ∧ AllPrintable conds
end

/-! ## What a printed literal decodes to -/

variable {unescape : Str → Option Str}

theorem isNormal_of_not_mustEscape {c : Char} (plain : ¬ MustEscape c) : isNormal c = true := by
  simp only [MustEscape, not_or] at plain
  obtain ⟨notQuote, notBackslash, notLow, notDelete⟩ := plain
  simp [isNormal, notQuote, notBackslash, notLow, notDelete]

theorem letterEscapes_table {e c : Char} (member : (e, c) ∈ letterEscapes) :
    isLetterEscape e = true ∧ simpleEscape e = some c := by
  simp only [letterEscapes, List.mem_cons, Prod.mk.injEq, List.not_mem_nil, or_false] at member
  rcases member with ⟨rfl, rfl⟩ | ⟨rfl, rfl⟩ | ⟨rfl, rfl⟩ | ⟨rfl, rfl⟩ | ⟨rfl, rfl⟩ | ⟨rfl, rfl⟩ |
    ⟨rfl, rfl⟩ <;> exact ⟨by decide, rfl⟩

theorem isAsciiHexdigit_of_hexDigitValue {c : Char} {value : Nat}
    (digit : hexDigitValue c = some value) : isAsciiHexdigit c = true := by
  unfold hexDigitValue at digit
  unfold isAsciiHexdigit
  split at digit
  · simp [*]
  · split at digit
    · simp [*]
    · split at digit
      · simp [*]
      · contradiction

/-- Every digit of a number is one. -/
theorem hexValue_digits {digits : Str} {value : Nat} (read : hexValue digits = some value) :
    ∀ c ∈ digits, isAsciiHexdigit c = true := by
  induction digits using List.reverseRecOn generalizing value with
  | nil =>
      intro c member
      contradiction
  | append_singleton digits last ih =>
      simp only [hexValue, List.foldl_append, List.foldl_cons, List.foldl_nil] at read
      split at read
      · rename_i previous digit start finish
        intro c member
        rcases List.mem_append.mp member with member | member
        · exact ih start c member
        · obtain rfl := List.mem_singleton.mp member
          exact isAsciiHexdigit_of_hexDigitValue finish
      · contradiction

theorem charOfNat_toNat (c : Char) : charOfNat c.toNat = some c := by
  have valid : c.toNat.isValidChar := c.valid
  unfold charOfNat
  rw [dif_pos valid]
  congr 1

theorem Spelling.body {c : Char} {token : Str} (spelling : Spelling c token) : Body token := by
  cases spelling with
  | plain plain => exact .plain (isNormal_of_not_mustEscape plain) .nil
  | letter member => exact .letter (letterEscapes_table member).1 .nil
  | unicode read =>
      refine .unicode (fun h member => ?_) .nil
      simp [isHexOrU, hexValue_digits read h member]

theorem Spelling.ne_nil {c : Char} {token : Str} (spelling : Spelling c token) : token ≠ [] := by
  cases spelling <;> simp

theorem Spelling.decoded {c : Char} {token body s : Str} (decodes : Decodes unescape)
    (spelling : Spelling c token) (rest : unescape body = some s) :
    unescape (token ++ body) = some (c :: s) := by
  cases spelling with
  | plain plain => exact decodes.plain c body s (fun same => plain (.inr (.inl same))) rest
  | letter member => exact decodes.simple _ c body s (letterEscapes_table member).2 rest
  | unicode read => exact decodes.unicode _ _ _ _ _ c body s read (charOfNat_toNat c) rest

theorem Spellings.body {s body : Str} (spellings : Spellings s body) : Body body := by
  induction spellings with
  | nil => exact .nil
  | cons first _ ih => exact first.body.append ih

theorem Spellings.decoded {s body : Str} (decodes : Decodes unescape)
    (spellings : Spellings s body) : unescape body = some s := by
  induction spellings with
  | nil => exact decodes.empty
  | cons first _ ih => exact first.decoded decodes ih

theorem Spellings.ne_nil {c : Char} {s body : Str} (spellings : Spellings (c :: s) body) :
    body ≠ [] := by
  cases spellings with
  | cons first _ => simp [first.ne_nil]

/-- The scanner hands the two quotes of an empty literal to the unescaper. -/
def readBackText (s : Str) : Str := if s = [] then ['"', '"'] else s

theorem rhsLiteral_quoted {s body : Str} (decodes : Decodes unescape)
    (spellings : Spellings s body) :
    rhsLiteral unescape (quoted body) = some ([], .str (readBackText s)) := by
  apply rhsLiteral_eq_some.mpr
  cases s with
  | nil =>
      cases spellings
      have quotes : unescape ['"', '"'] = some ['"', '"'] :=
        decodes.plain _ _ _ (by decide) (decodes.plain _ _ _ (by decide) decodes.empty)
      exact ⟨_, _, string_eq_some.mpr (.inl ⟨rfl, rfl⟩), quotes, rfl⟩
  | cons c s =>
      refine ⟨body, c :: s, string_eq_some.mpr (.inr ?_), spellings.decoded decodes, rfl⟩
      exact ⟨spellings.body, spellings.ne_nil, rfl⟩

/-! ## What a printed condition derives -/

mutual
/-- The condition that a printed condition is read back as. -/
def readBack : Condition → Condition
  | .and conds => .and (readBackAll conds)
  | .or conds => .or (readBackAll conds)
  | .not cond => .not (readBack cond)
  | .leaf lhs op (some (.str s)) => .leaf lhs op (some (.str (readBackText s)))
  | .leaf lhs op none => .leaf lhs op none

def readBackAll : List Condition → List Condition
  | [] => []
  | cond :: conds => readBack cond :: readBackAll conds
end

variable {tokens others : List Token} {cond tree : Condition} {conds trees : List Condition}

theorem readBackAll_length : (readBackAll conds).length = conds.length := by
  induction conds with
  | nil => simp [readBackAll]
  | cons cond conds ih => simp [readBackAll, ih]

theorem chainTree_of_many {build : List Condition → Condition} (many : 2 ≤ trees.length) :
    chainTree build trees = build trees := by
  match trees with
  | [] | [_] => simp at many
  | _ :: _ :: _ => rfl

theorem derivesAnd_of_not (derived : DerivesNot unescape tokens tree) :
    DerivesAnd unescape tokens tree :=
  .chain (.one derived)

theorem derivesOr_of_not (derived : DerivesNot unescape tokens tree) :
    DerivesOr unescape tokens tree :=
  .chain (.one (derivesAnd_of_not derived))

mutual
theorem Printed.derives {cond : Condition} {tokens : List Token} (decodes : Decodes unescape)
    (printed : Printed cond tokens) :
    DerivesOr unescape tokens (readBack cond) := by
  cases printed with
  | leaf ident spellings =>
      exact derivesOr_of_not (.plain (.leaf ident (rhsLiteral_quoted decodes spellings)))
  | not operand => exact derivesOr_of_not (.bang (Operand.derives decodes operand))
  | @and conds tokens many operands =>
      have chain := (Operands.derives decodes operands).mono fun _ _ derived => DerivesNot.plain derived
      have derived := derivesAnd_iff.mpr ⟨_, chain, rfl⟩
      rw [chainTree_of_many (by rwa [readBackAll_length])] at derived
      exact .chain (.one derived)
  | @or conds tokens many operands =>
      have chain := (Operands.derives decodes operands).mono
        fun _ _ derived => derivesAnd_of_not (.plain derived)
      have derived := derivesOr_iff.mpr ⟨_, chain, rfl⟩
      rw [chainTree_of_many (by rwa [readBackAll_length])] at derived
      exact derived
termination_by 3 * tokens.length + 2
decreasing_by all_goals grind

theorem Operand.derives {cond : Condition} {tokens : List Token} (decodes : Decodes unescape)
    (printed : Operand cond tokens) :
    DerivesAtom unescape tokens (readBack cond) := by
  cases printed with
  | leaf leaf =>
      cases leaf with
      | leaf ident spellings => exact .leaf ident (rhsLiteral_quoted decodes spellings)
  | parens _ within => exact .paren (Printed.derives decodes within)
termination_by 3 * tokens.length
decreasing_by all_goals grind

theorem Operands.derives {separator : Token} {conds : List Condition} {tokens : List Token}
    (decodes : Decodes unescape) (printed : Operands separator conds tokens) :
    ChainOf separator (DerivesAtom unescape) tokens (readBackAll conds) := by
  cases printed with
  | one first => exact .one (Operand.derives decodes first)
  | more first rest => exact .more (Operand.derives decodes first) (Operands.derives decodes rest)
termination_by 3 * tokens.length + 1
decreasing_by all_goals grind
end

theorem doParse_of_printed {text : Str} (decodes : Decodes unescape) (printed : PrintedAs cond text) :
    doParse unescape text = some ([], readBack cond) := by
  obtain ⟨tokens, printed, spelled⟩ := printed
  exact doParse_of_derives ⟨tokens, spelled, printed.derives decodes⟩

/-! ## Printings exist -/

theorem exists_hexDigit (value : Nat) (small : value < 16) :
    ∃ h, hexDigitValue h = some value := by
  have table : ∀ value < 16, hexDigitValue ("0123456789abcdef".toList.getD value ' ') = some value := by
    decide
  exact ⟨_, table value small⟩

theorem exists_unicode (code : Nat) (small : code < 256) :
    ∃ h₃ h₄, hexValue ['0', '0', h₃, h₄] = some code := by
  obtain ⟨h₃, third⟩ := exists_hexDigit (code / 16) (by omega)
  obtain ⟨h₄, fourth⟩ := exists_hexDigit (code % 16) (by omega)
  have zero : hexDigitValue '0' = some 0 := rfl
  refine ⟨h₃, h₄, ?_⟩
  simp only [hexValue, List.foldl_cons, List.foldl_nil, zero, third, fourth, Option.some.injEq]
  omega

/-- The spelling that escapes only what must be. -/
theorem exists_spelling (c : Char) : ∃ token, Spelling c token := by
  by_cases plain : MustEscape c
  · rcases plain with rfl | rfl | control | control
    · exact ⟨_, .letter (e := '"') (by decide)⟩
    · exact ⟨_, .letter (e := '\\') (by decide)⟩
    · obtain ⟨h₃, h₄, read⟩ := exists_unicode c.toNat (by omega)
      exact ⟨_, .unicode read⟩
    · obtain ⟨h₃, h₄, read⟩ := exists_unicode c.toNat (by omega)
      exact ⟨_, .unicode read⟩
  · exact ⟨[c], .plain plain⟩

theorem exists_spellings (s : Str) : ∃ body, Spellings s body := by
  induction s with
  | nil => exact ⟨[], .nil⟩
  | cons c s ih =>
      obtain ⟨token, first⟩ := exists_spelling c
      obtain ⟨body, rest⟩ := ih
      exact ⟨token ++ body, .cons first rest⟩

theorem exists_operand (printed : ∃ tokens, Printed cond tokens) : ∃ tokens, Operand cond tokens := by
  obtain ⟨tokens, printed⟩ := printed
  cases cond with
  | leaf lhs op rhs => exact ⟨_, .leaf printed⟩
  | and conds => exact ⟨_, .parens (by simp) printed⟩
  | or conds => exact ⟨_, .parens (by simp) printed⟩
  | not cond => exact ⟨_, .parens (by simp) printed⟩

mutual
theorem exists_printed : (cond : Condition) → Printable cond → ∃ tokens, Printed cond tokens
  | .and conds, ⟨many, printable⟩ => by
      obtain ⟨tokens, operands⟩ := exists_operands .ampAmp conds printable (by omega)
      exact ⟨tokens, .and many operands⟩
  | .or conds, ⟨many, printable⟩ => by
      obtain ⟨tokens, operands⟩ := exists_operands .barBar conds printable (by omega)
      exact ⟨tokens, .or many operands⟩
  | .not cond, printable => by
      obtain ⟨tokens, operand⟩ := exists_operand (exists_printed cond printable)
      exact ⟨_, .not operand⟩
  | .leaf lhs .eq (some (.str s)), ⟨ident, _⟩ => by
      obtain ⟨body, spellings⟩ := exists_spellings s
      exact ⟨_, .leaf ident spellings⟩

theorem exists_operands (separator : Token) :
    (conds : List Condition) → AllPrintable conds → 0 < conds.length →
      ∃ tokens, Operands separator conds tokens
  | [cond], ⟨printable, _⟩, _ => by
      obtain ⟨tokens, operand⟩ := exists_operand (exists_printed cond printable)
      exact ⟨tokens, .one operand⟩
  | cond :: next :: conds, ⟨printable, rest⟩, _ => by
      obtain ⟨tokens, operand⟩ := exists_operand (exists_printed cond printable)
      obtain ⟨others, operands⟩ := exists_operands separator (next :: conds) rest (by simp)
      exact ⟨_, .more operand operands⟩
end

theorem exists_spells (tokens : List Token) : ∃ text, Spells tokens text := by
  have none : Spaces [] := fun _ member => absurd member List.not_mem_nil
  induction tokens with
  | nil => exact ⟨[], .nil none⟩
  | cons token tokens ih =>
      obtain ⟨text, spelled⟩ := ih
      exact ⟨_, .cons none spelled⟩

theorem exists_printedAs (printable : Printable cond) : ∃ text, PrintedAs cond text := by
  obtain ⟨tokens, printed⟩ := exists_printed cond printable
  obtain ⟨text, spelled⟩ := exists_spells tokens
  exact ⟨text, tokens, printed, spelled⟩

/-! ## Which conditions are read back -/

mutual
/-- No leaf compares with the empty string. -/
def NoEmptyValue : Condition → Prop
  | .and conds => NoEmptyValues conds
  | .or conds => NoEmptyValues conds
  | .not cond => NoEmptyValue cond
  | .leaf _ _ rhs => rhs ≠ some (.str [])

def NoEmptyValues : List Condition → Prop
  | [] => True
  | cond :: conds => NoEmptyValue cond ∧ NoEmptyValues conds
end

theorem readBackText_eq_self {s : Str} : readBackText s = s ↔ s ≠ [] := by
  cases s <;> simp [readBackText]

mutual
theorem readBack_eq_self : (cond : Condition) → (readBack cond = cond ↔ NoEmptyValue cond)
  | .and conds => by simp [readBack, NoEmptyValue, readBackAll_eq_self conds]
  | .or conds => by simp [readBack, NoEmptyValue, readBackAll_eq_self conds]
  | .not cond => by simp [readBack, NoEmptyValue, readBack_eq_self cond]
  | .leaf lhs op (some (.str s)) => by simp [readBack, NoEmptyValue, readBackText_eq_self]
  | .leaf lhs op none => by simp [readBack, NoEmptyValue]

theorem readBackAll_eq_self :
    (conds : List Condition) → (readBackAll conds = conds ↔ NoEmptyValues conds)
  | [] => by simp [readBackAll, NoEmptyValues]
  | cond :: conds => by
      simp [readBackAll, NoEmptyValues, readBack_eq_self cond, readBackAll_eq_self conds]
end

/-- Every printing of a condition is read back as that condition exactly when no
leaf holds the empty string, which the scanner turns into two quotes. -/
theorem printed_reads_back_iff (unescape : Str → Option Str) (decodes : Decodes unescape)
    (cond : Condition) (printable : Printable cond) :
    (∃ text, PrintedAs cond text) ∧
    ∀ text, PrintedAs cond text →
      (doParse unescape text = some ([], cond) ↔ NoEmptyValue cond) := by
  refine ⟨exists_printedAs printable, fun text printed => ?_⟩
  rw [doParse_of_printed decodes printed, ← readBack_eq_self cond]
  simp

/-- A negation and a chain below a chain, with values that must be escaped. -/
def nestedCondition : Condition :=
  .and [.not (.leaf ['a'] .eq (some (.str ['"']))),
    .or [.leaf ['b'] .eq (some (.str ['\n', 'x'])), .leaf ['c'] .eq (some (.str ['\\']))]]

def nestedText : Str := "(!a==\"\\\"\") && (b==\"\\u000ax\" || c==\"\\\\\")".toList

theorem nestedText_printed : PrintedAs nestedCondition nestedText := by
  have ident : ∀ name ∈ ['a', 'b', 'c'], IsIdent [name] := by
    simp [IsIdent, isIdentStart, isAlpha]
  have quote : Spellings ['"'] ['\\', '"'] := .cons (.letter (by decide)) .nil
  have line : Spellings ['\n', 'x'] ['\\', 'u', '0', '0', '0', 'a', 'x'] :=
    .cons (.unicode rfl) (.cons (.plain (by simp [MustEscape])) .nil)
  have backslash : Spellings ['\\'] ['\\', '\\'] := .cons (.letter (by decide)) .nil
  have none : Spaces [] := fun _ member => absurd member List.not_mem_nil
  have blank : Spaces [' '] := fun _ member => .inl (List.mem_singleton.mp member)
  have inner : Printed (.or [.leaf ['b'] .eq (some (.str ['\n', 'x'])), .leaf ['c'] .eq (some (.str ['\\']))]) _ :=
    .or (by simp) (.more (.leaf (.leaf (ident 'b' (by simp)) line))
      (.one (.leaf (.leaf (ident 'c' (by simp)) backslash))))
  refine ⟨_, .and (by simp) (.more (.parens (by simp) (.not (.leaf (.leaf (ident 'a' (by simp)) quote))))
    (.one (.parens (by simp) inner))), ?_⟩
  exact .cons none (.cons none (.cons none (.cons none (.cons none (.cons none (.cons blank (.cons blank
    (.cons none (.cons none (.cons none (.cons blank (.cons blank (.cons none (.cons none (.cons none
      (.nil none))))))))))))))))

theorem printed_reads_back_nested : PrintedAs nestedCondition nestedText ∧
    doParse Unescape.unescape nestedText = some ([], nestedCondition) := by
  have ident : ∀ name ∈ ['a', 'b', 'c'], IsIdent [name] := by
    simp [IsIdent, isIdentStart, isAlpha]
  have printable : Printable nestedCondition := by
    simp [nestedCondition, Printable, AllPrintable, ident]
  obtain ⟨-, reads⟩ := printed_reads_back_iff Unescape.unescape decodes_unescape nestedCondition printable
  refine ⟨nestedText_printed, (reads nestedText nestedText_printed).mpr ?_⟩
  simp [nestedCondition, NoEmptyValue, NoEmptyValues]

/-- The rule `a==""` compares with two quotes. -/
theorem printed_reads_back_fails_at_empty : ¬ ∀ cond text, Printable cond → PrintedAs cond text →
    doParse Unescape.unescape text = some ([], cond) := by
  intro claimed
  have ident : IsIdent ['a'] := ⟨by decide, by simp⟩
  have printed : PrintedAs (.leaf ['a'] .eq (some (.str []))) ['a', '=', '=', '"', '"'] := by
    have none : Spaces [] := fun _ member => absurd member List.not_mem_nil
    exact ⟨_, .leaf ident .nil, .cons none (.cons none (.cons none (.nil none)))⟩
  have printable : Printable (.leaf ['a'] .eq (some (.str []))) := ⟨ident, by simp⟩
  have expected := claimed _ _ printable printed
  rw [doParse_of_printed decodes_unescape printed] at expected
  simp [readBack, readBackText] at expected

end Eafcc.Parser.RoundTrip
