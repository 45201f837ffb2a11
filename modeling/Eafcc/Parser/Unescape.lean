import Eafcc.Text

namespace Eafcc.Parser.Unescape

/-! # The unescaper of string literals

The crate `unescape`, version 0.1.0, is not part of the repository.
`Decodes` is what its documentation promises for the escapes that a literal may
hold, and `unescape` is a function that keeps the promise.  On what no literal holds
it need not agree with the crate: octal escapes may be short here, and a sign is no
hexadecimal digit.
-/

def hexDigitValue (c : Char) : Option Nat :=
  if c.isDigit then some (c.toNat - '0'.toNat)
  else if 'a' ≤ c ∧ c ≤ 'f' then some (c.toNat - 'a'.toNat + 10)
  else if 'A' ≤ c ∧ c ≤ 'F' then some (c.toNat - 'A'.toNat + 10)
  else none

/-- The number a run of hexadecimal digits denotes. -/
def hexValue (digits : Str) : Option Nat :=
  digits.foldl (fun value c =>
    match value, hexDigitValue c with
    | some value, some digit => some (value * 16 + digit)
    | _, _ => none) (some 0)

def charOfNat (code : Nat) : Option Char :=
  if h : code.isValidChar then some (Char.ofNatAux code h) else none

/-- The escapes of one letter. -/
def simpleEscape : Char → Option Char
  | 'b' => some (Char.ofNat 8)
  | 'f' => some (Char.ofNat 12)
  | 'n' => some '\n'
  | 'r' => some '\r'
  | 't' => some '\t'
  | '\'' => some '\''
  | '"' => some '"'
  | '\\' => some '\\'
  | _ => none

/-- What the parser relies on in `unescape`. -/
structure Decodes (unescape : Str → Option Str) : Prop where
  empty : unescape [] = some []
  plain : ∀ c s t, c ≠ '\\' → unescape s = some t → unescape (c :: s) = some (c :: t)
  simple : ∀ e c s t, simpleEscape e = some c → unescape s = some t →
    unescape ('\\' :: e :: s) = some (c :: t)
  unicode : ∀ h₁ h₂ h₃ h₄ code c s t, hexValue [h₁, h₂, h₃, h₄] = some code →
    charOfNat code = some c → unescape s = some t →
    unescape ('\\' :: 'u' :: h₁ :: h₂ :: h₃ :: h₄ :: s) = some (c :: t)

def isOctalDigit (c : Char) : Bool := '0' ≤ c && c ≤ '7'

/-- Up to three octal digits, the first at most three where there are three. Fewer are enough,
unlike in the crate. -/
def octalEscape (first : Char) (s : Str) : Option (Char × Str) :=
  let most := if first ≤ '3' then 2 else 1
  let more := (s.takeWhile isOctalDigit).take most
  let code := (first :: more).foldl (fun value c => value * 8 + (c.toNat - '0'.toNat)) 0
  (charOfNat code).map fun c => (c, s.drop more.length)

def codeEscape (digits : Nat) (s : Str) : Option (Char × Str) :=
  if s.length < digits then none
  else ((hexValue (s.take digits)).bind charOfNat).map fun c => (c, s.drop digits)

/-- The character that the text after a backslash stands for, and what follows it. -/
def readEscape : Str → Option (Char × Str)
  | [] => none
  | e :: s =>
      match simpleEscape e with
      | some c => some (c, s)
      | none =>
          if e = 'u' then codeEscape 4 s
          else if e = 'x' then codeEscape 2 s
          else if isOctalDigit e then octalEscape e s
          else none

def unescapeLoop : Nat → Str → Option Str
  | 0, _ => none
  | _ + 1, [] => some []
  | fuel + 1, c :: s =>
      if c = '\\' then
        match readEscape s with
        | some (c, s) => (unescapeLoop fuel s).map (c :: ·)
        | none => none
      else (unescapeLoop fuel s).map (c :: ·)

def unescape (s : Str) : Option Str := unescapeLoop (s.length + 1) s

example : unescape ['a', '\\', 'n', '\\', 'u', '0', '0', '4', '1'] = some ['a', '\n', 'A'] := by
  decide

theorem unescapeLoop_succ {fuel : Nat} {s t : Str} (decoded : unescapeLoop fuel s = some t) :
    unescapeLoop (fuel + 1) s = some t := by
  induction fuel generalizing s t with
  | zero => simp [unescapeLoop] at decoded
  | succ fuel ih =>
      have continued : ∀ (c : Char) rest, (unescapeLoop fuel rest).map (c :: ·) = some t →
          (unescapeLoop (fuel + 1) rest).map (c :: ·) = some t := by
        intro c rest read
        obtain ⟨text, inner, same⟩ := Option.map_eq_some_iff.mp read
        exact Option.map_eq_some_iff.mpr ⟨text, ih inner, same⟩
      cases s with
      | nil => exact decoded
      | cons c s =>
          rw [unescapeLoop] at decoded ⊢
          by_cases backslash : c = '\\'
          · simp only [if_pos backslash] at decoded ⊢
            cases read : readEscape s with
            | none => simp [read] at decoded
            | some result =>
                simp only [read] at decoded ⊢
                exact continued _ _ decoded
          · simp only [if_neg backslash] at decoded ⊢
            exact continued _ _ decoded

theorem unescapeLoop_le {fuel more : Nat} {s t : Str} (enough : fuel ≤ more)
    (decoded : unescapeLoop fuel s = some t) : unescapeLoop more s = some t := by
  induction enough with
  | refl => exact decoded
  | step _ ih => exact unescapeLoop_succ ih

theorem decodes_unescape : Decodes unescape where
  empty := rfl
  plain c s t notBackslash decoded := by
    change unescapeLoop (s.length + 1 + 1) (c :: s) = _
    rw [unescapeLoop, if_neg notBackslash]
    exact Option.map_eq_some_iff.mpr ⟨t, decoded, rfl⟩
  simple e c s t escape decoded := by
    have read : readEscape (e :: s) = some (c, s) := by simp [readEscape, escape]
    change unescapeLoop (s.length + 2 + 1) ('\\' :: e :: s) = _
    simp only [unescapeLoop, if_true, read]
    exact Option.map_eq_some_iff.mpr ⟨t, unescapeLoop_succ decoded, rfl⟩
  unicode h₁ h₂ h₃ h₄ code c s t digits char decoded := by
    have notSimple : simpleEscape 'u' = none := rfl
    have read : readEscape ('u' :: h₁ :: h₂ :: h₃ :: h₄ :: s) = some (c, s) := by
      simp [readEscape, notSimple, codeEscape, digits, char]
    change unescapeLoop (s.length + 6 + 1) ('\\' :: 'u' :: h₁ :: h₂ :: h₃ :: h₄ :: s) = _
    simp only [unescapeLoop, if_true, read]
    exact Option.map_eq_some_iff.mpr ⟨t, unescapeLoop_le (by omega) decoded, rfl⟩

end Eafcc.Parser.Unescape
