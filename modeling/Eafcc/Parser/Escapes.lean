import Eafcc.Parser.Literal
import Eafcc.Parser.Unescape

namespace Eafcc.Parser.Rule

open Nom Unescape Eafcc.RuleEngine

/-! # Which literals can be decoded -/

/-- What the documentation of `unescape` says: it decodes certain escapes and gives up at
any other. Of an escape `\u` this speaks where the scanner lets it through. -/
structure Documented (unescape : Str → Option Str) : Prop where
  empty : unescape [] = some []
  plain : ∀ c s, c ≠ '\\' → unescape (c :: s) = (unescape s).map (c :: ·)
  simple : ∀ e c s, simpleEscape e = some c → unescape ('\\' :: e :: s) = (unescape s).map (c :: ·)
  unicode : ∀ h₁ h₂ h₃ h₄ s, (∀ h ∈ [h₁, h₂, h₃, h₄], isHexOrU h = true) →
    unescape ('\\' :: 'u' :: h₁ :: h₂ :: h₃ :: h₄ :: s) =
      ((hexValue [h₁, h₂, h₃, h₄]).bind charOfNat).bind fun c => (unescape s).map (c :: ·)
  other : ∀ e s, simpleEscape e = none → e ≠ 'u' → e ≠ 'x' → isOctalDigit e = false →
    unescape ('\\' :: e :: s) = none

/-- Four hexadecimal digits that are not half of a surrogate pair. -/
def NamesChar (h₁ h₂ h₃ h₄ : Char) : Prop :=
  ∃ code, hexValue [h₁, h₂, h₃, h₄] = some code ∧ (code < 0xD800 ∨ 0xDFFF < code)

/-- A text without `\/`, in which every `\u` is followed by the digits of a character. -/
inductive Decodable : Str → Prop
  | nil : Decodable []
  | plain {c : Char} {text : Str} : c ≠ '\\' → Decodable text → Decodable (c :: text)
  | letter {e : Char} {text : Str} :
      isLetterEscape e = true → e ≠ '/' → Decodable text → Decodable ('\\' :: e :: text)
  | unicode {h₁ h₂ h₃ h₄ : Char} {text : Str} :
      NamesChar h₁ h₂ h₃ h₄ → Decodable text → Decodable ('\\' :: 'u' :: h₁ :: h₂ :: h₃ :: h₄ :: text)

/-! ## The numbers of four digits -/

theorem hexDigitValue_lt {c : Char} {digit : Nat} (read : hexDigitValue c = some digit) : digit < 16 := by
  unfold hexDigitValue at read
  split at read
  · rename_i decimal
    simp only [Char.isDigit, Bool.and_eq_true, decide_eq_true_eq, UInt32.le_iff_toNat_le] at decimal
    simp only [Option.some.injEq] at read
    have upper : c.toNat ≤ 57 := decimal.2
    have zero : '0'.toNat = 48 := rfl
    omega
  · split at read
    · rename_i lower
      simp only [Option.some.injEq] at read
      have upper : c.toNat ≤ 102 := lower.2
      have first : 'a'.toNat = 97 := rfl
      omega
    · split at read
      · rename_i capital
        simp only [Option.some.injEq] at read
        have upper : c.toNat ≤ 70 := capital.2
        have first : 'A'.toNat = 65 := rfl
        omega
      · cases read

theorem hexValue_lt {digits : Str} {value : Nat} (read : hexValue digits = some value) :
    value < 16 ^ digits.length := by
  induction digits using List.reverseRecOn generalizing value with
  | nil =>
      cases read
      decide
  | append_singleton digits last ih =>
      simp only [hexValue, List.foldl_append, List.foldl_cons, List.foldl_nil] at read
      split at read
      · rename_i previous digit start finish
        cases read
        have earlier := ih start
        have final := hexDigitValue_lt finish
        rw [List.length_append, List.length_singleton, pow_succ]
        omega
      · cases read

theorem charOfNat_ne_none_iff {code : Nat} : charOfNat code ≠ none ↔ code.isValidChar := by
  unfold charOfNat
  split
  · rename_i valid
    simp [valid]
  · rename_i invalid
    simp [invalid]

theorem namesChar_iff {h₁ h₂ h₃ h₄ : Char} :
    NamesChar h₁ h₂ h₃ h₄ ↔ (hexValue [h₁, h₂, h₃, h₄]).bind charOfNat ≠ none := by
  unfold NamesChar
  cases read : hexValue [h₁, h₂, h₃, h₄] with
  | none => simp
  | some code =>
      have bound : code < 16 ^ 4 := hexValue_lt read
      simp only [Option.some.injEq, exists_eq_left', Option.bind_some, charOfNat_ne_none_iff, Nat.isValidChar]
      omega

/-! ## Decoding a scanned text -/

theorem simpleEscape_letter {e : Char} (letter : isLetterEscape e = true) (notSlash : e ≠ '/') :
    ∃ c, simpleEscape e = some c := by
  simp only [isLetterEscape, List.mem_cons, List.not_mem_nil, or_false, decide_eq_true_eq] at letter
  rcases letter with rfl | rfl | rfl | rfl | rfl | rfl | rfl | rfl
  case inr.inr.inl => exact absurd rfl notSlash
  all_goals exact ⟨_, rfl⟩

theorem decodable_letter_iff {e : Char} {text : Str} (letter : isLetterEscape e = true) :
    Decodable ('\\' :: e :: text) ↔ e ≠ '/' ∧ Decodable text := by
  constructor
  · intro decodable
    cases decodable with
    | plain notBackslash _ => exact absurd rfl notBackslash
    | letter _ notSlash rest => exact ⟨notSlash, rest⟩
    | unicode _ _ => simp [isLetterEscape] at letter
  · intro both
    exact .letter letter both.1 both.2

theorem decodable_unicode_iff {h₁ h₂ h₃ h₄ : Char} {text : Str} :
    Decodable ('\\' :: 'u' :: h₁ :: h₂ :: h₃ :: h₄ :: text) ↔ NamesChar h₁ h₂ h₃ h₄ ∧ Decodable text := by
  constructor
  · intro decodable
    cases decodable with
    | plain notBackslash _ => exact absurd rfl notBackslash
    | letter letter _ _ => simp [isLetterEscape] at letter
    | unicode names rest => exact ⟨names, rest⟩
  · intro both
    exact .unicode both.1 both.2

theorem decodable_plain_iff {c : Char} {text : Str} (notBackslash : c ≠ '\\') :
    Decodable (c :: text) ↔ Decodable text := by
  constructor
  · intro decodable
    cases decodable with
    | plain _ rest => exact rest
    | letter _ _ _ => exact absurd rfl notBackslash
    | unicode _ _ => exact absurd rfl notBackslash
  · exact .plain notBackslash

/-- A text that the scanner lets through is decoded exactly if it is decodable. -/
theorem Body.decodes_iff {unescape : Str → Option Str} (documented : Documented unescape) {m : Str}
    (body : Body m) : unescape m ≠ none ↔ Decodable m := by
  induction body with
  | nil => simp [documented.empty, Decodable.nil]
  | @plain c text normal _ ih =>
      have notBackslash : c ≠ '\\' := by
        rintro rfl
        simp [isNormal] at normal
      rw [documented.plain c text notBackslash, decodable_plain_iff notBackslash, ← ih]
      simp
  | @letter e text letter _ ih =>
      rw [decodable_letter_iff letter, ← ih]
      by_cases slash : e = '/'
      · subst slash
        simp [documented.other '/' text rfl (by decide) (by decide) (by decide)]
      · obtain ⟨c, simple⟩ := simpleEscape_letter letter slash
        rw [documented.simple e c text simple]
        simp [slash]
  | @unicode h₁ h₂ h₃ h₄ text hex _ ih =>
      rw [decodable_unicode_iff, ← ih, documented.unicode h₁ h₂ h₃ h₄ text hex, namesChar_iff]
      cases (hexValue [h₁, h₂, h₃, h₄]).bind charOfNat <;> simp

/-- What the scanner matches is decoded exactly if it has no `\/` and every `\u` in it is
followed by the digits of a character. -/
theorem string_decodes_iff (unescape : Str → Option Str) (documented : Documented unescape)
    (i r m : Str) (matched : string i = some (r, m)) :
    (∃ value, unescapeStr unescape m = some value) ↔ Decodable m := by
  have decoded : (∃ value, unescapeStr unescape m = some value) ↔ unescape m ≠ none := by
    unfold unescapeStr
    cases unescape m <;> simp
  rw [decoded]
  rcases string_eq_some.mp matched with ⟨rfl, -⟩ | ⟨body, -, -⟩
  · have quotes : unescape ['"', '"'] = some ['"', '"'] := by
      rw [documented.plain _ _ (by decide), documented.plain _ _ (by decide), documented.empty]
      rfl
    have decodable : Decodable ['"', '"'] := .plain (by decide) (.plain (by decide) .nil)
    simp [quotes, decodable]
  · exact body.decodes_iff documented

/-! ## The unescaper as documented -/

theorem readEscape_shorter {s rest : Str} {c : Char} (read : readEscape s = some (c, rest)) :
    rest.length < s.length := by
  cases s with
  | nil => cases read
  | cons e s =>
      have code : ∀ digits, codeEscape digits s = some (c, rest) → rest.length ≤ s.length := by
        intro digits escape
        unfold codeEscape at escape
        split at escape
        · cases escape
        · simp only [Option.map_eq_some_iff, Prod.mk.injEq] at escape
          obtain ⟨_, -, -, rfl⟩ := escape
          simp
      rw [List.length_cons, Nat.lt_succ_iff]
      simp only [readEscape] at read
      split at read
      · cases read
        exact Nat.le_refl _
      · split at read
        · exact code 4 read
        · split at read
          · exact code 2 read
          · split at read
            · simp only [octalEscape, Option.map_eq_some_iff, Prod.mk.injEq] at read
              obtain ⟨_, -, -, rfl⟩ := read
              simp
            · cases read

/-- Fuel for every character is enough. -/
theorem unescapeLoop_enough {fuel : Nat} {s : Str} (enough : s.length < fuel) :
    unescapeLoop (fuel + 1) s = unescapeLoop fuel s := by
  induction fuel generalizing s with
  | zero => omega
  | succ fuel ih =>
      cases s with
      | nil => rfl
      | cons c s =>
          rw [List.length_cons] at enough
          rw [unescapeLoop, unescapeLoop]
          split
          · cases read : readEscape s with
            | none => rfl
            | some result =>
                obtain ⟨c', rest⟩ := result
                have shorter := readEscape_shorter read
                dsimp only
                rw [ih (by omega)]
          · rw [ih (by omega)]

theorem unescapeLoop_eq {fuel : Nat} {s : Str} (enough : s.length < fuel) :
    unescapeLoop fuel s = unescape s := by
  induction fuel with
  | zero => omega
  | succ fuel ih =>
      by_cases last : fuel = s.length
      · rw [last]
        rfl
      · rw [unescapeLoop_enough (by omega)]
        exact ih (by omega)

theorem unescape_escape {e c : Char} {s rest : Str} (read : readEscape (e :: s) = some (c, rest)) :
    unescape ('\\' :: e :: s) = (unescape rest).map (c :: ·) := by
  have shorter := readEscape_shorter read
  rw [List.length_cons] at shorter
  change unescapeLoop (s.length + 2 + 1) ('\\' :: e :: s) = _
  rw [unescapeLoop, if_pos rfl, read]
  dsimp only
  rw [unescapeLoop_eq (by omega)]

theorem unescape_no_escape {e : Char} {s : Str} (read : readEscape (e :: s) = none) :
    unescape ('\\' :: e :: s) = none := by
  change unescapeLoop (s.length + 2 + 1) ('\\' :: e :: s) = _
  rw [unescapeLoop, if_pos rfl, read]

theorem documented_unescape : Documented unescape where
  empty := rfl
  plain c s notBackslash := by
    change unescapeLoop (s.length + 1 + 1) (c :: s) = _
    rw [unescapeLoop, if_neg notBackslash]
    rfl
  simple e c s simple := unescape_escape (by simp [readEscape, simple])
  unicode h₁ h₂ h₃ h₄ s _ := by
    have notSimple : simpleEscape 'u' = none := rfl
    cases named : (hexValue [h₁, h₂, h₃, h₄]).bind charOfNat with
    | none => exact unescape_no_escape (by simp [readEscape, notSimple, codeEscape, named])
    | some c => exact unescape_escape (by simp [readEscape, notSimple, codeEscape, named])
  other e s simple notU notX notOctal :=
    unescape_no_escape (by simp [readEscape, simple, notU, notX, notOctal])

theorem string_decodes_iff_sample : ∃ value, unescapeStr unescape ['a', '\\', 'n'] = some value :=
  (string_decodes_iff unescape documented_unescape "\"a\\n\"".toList [] ['a', '\\', 'n'] rfl).mpr
    (.plain (by decide) (.letter rfl (by decide) .nil))

/-- Three literals that the scanner matches and the unescaper gives up at. -/
theorem string_matches_undecodable :
    (string "\"\\/\"".toList = some ([], "\\/".toList) ∧ unescapeStr unescape "\\/".toList = none) ∧
    (string "\"\\ud800\"".toList = some ([], "\\ud800".toList) ∧
      unescapeStr unescape "\\ud800".toList = none) ∧
    (string "\"\\uuuuu\"".toList = some ([], "\\uuuuu".toList) ∧
      unescapeStr unescape "\\uuuuu".toList = none) :=
  ⟨⟨rfl, rfl⟩, ⟨rfl, rfl⟩, rfl, rfl⟩

end Eafcc.Parser.Rule
