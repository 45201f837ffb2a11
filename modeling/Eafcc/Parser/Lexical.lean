import Eafcc.Parser.Grammar
import Eafcc.Parser.Literal

namespace Eafcc.Parser.Grammar

open Nom Eafcc.RuleEngine Eafcc.Parser.Rule

/-! # Tokens as the parser reads them

`Lexes tokens i r`: the parsers, which skip whitespace before and after each
token, read `tokens` from the front of `i` and leave `r`.
-/

/-- What `multispace0` leaves. -/
def trim (i : Str) : Str := i.dropWhile isMultispace

inductive Lexes : List Token → Str → Str → Prop
  | nil {i : Str} : Lexes [] i (trim i)
  | cons {token : Token} {tokens : List Token} {i m r : Str} :
      trim i = token.text ++ m → Lexes tokens m r → Lexes (token :: tokens) i r

variable {i r m : Str} {tokens others : List Token} {token : Token}

theorem isMultispace_iff {c : Char} :
    isMultispace c = true ↔ c = ' ' ∨ c = '\t' ∨ c = '\r' ∨ c = '\n' := by
  simp [isMultispace, or_assoc]

@[simp] theorem trim_nil : trim [] = [] := rfl

@[simp] theorem trim_trim (i : Str) : trim (trim i) = trim i := by
  unfold trim
  exact List.dropWhile_idempotent _ _

theorem trim_of_head {c : Char} (solid : isMultispace c = false) : trim (c :: i) = c :: i := by
  simp [trim, solid]

theorem trim_spaces_append (spaces : Spaces m) : trim (m ++ i) = trim i := by
  unfold trim
  rw [List.dropWhile_append_of_pos]
  intro c member
  exact isMultispace_iff.mpr (spaces c member)

theorem exists_spaces_append_trim (i : Str) : ∃ spaces, Spaces spaces ∧ i = spaces ++ trim i :=
  ⟨i.takeWhile isMultispace, fun _ member => isMultispace_iff.mp (List.mem_takeWhile_imp member),
    List.takeWhile_append_dropWhile.symm⟩

theorem trim_length_le (i : Str) : (trim i).length ≤ i.length :=
  (List.dropWhile_suffix isMultispace).length_le

theorem ws_eq_some {α : Type} {parser : Parser α} {output : α} :
    ws parser i = some (r, output) ↔ ∃ m, parser (trim i) = some (m, output) ∧ r = trim m := by
  unfold ws
  rw [delimited_eq_some]
  constructor
  · rintro ⟨middle, inner, left, right, before, parsed, after⟩
    cases before
    cases after
    exact ⟨inner, parsed, rfl⟩
  · rintro ⟨m, parsed, rfl⟩
    exact ⟨trim i, m, _, _, rfl, parsed, rfl⟩

theorem ws_eq_none {α : Type} {parser : Parser α} (failed : parser (trim i) = none) :
    ws parser i = none := by
  cases parsed : ws parser i with
  | none => rfl
  | some result =>
      obtain ⟨m, found, -⟩ := ws_eq_some.mp parsed
      rw [failed] at found
      contradiction

/-- Whitespace that a parser skips anyway may be skipped before it. -/
theorem ws_trim {α : Type} (parser : Parser α) (i : Str) : ws parser (trim i) = ws parser i := by
  apply Option.ext
  rintro ⟨r, output⟩
  rw [ws_eq_some, ws_eq_some, trim_trim]

theorem ws_tag_eq_some {literal output : Str} :
    ws (tag literal) i = some (r, output) ↔
      output = literal ∧ ∃ m, trim i = literal ++ m ∧ r = trim m := by
  rw [ws_eq_some]
  simp only [tag_eq_some]
  constructor
  · rintro ⟨m, ⟨rfl, same⟩, rfl⟩
    exact ⟨rfl, m, same, rfl⟩
  · rintro ⟨rfl, m, same, rfl⟩
    exact ⟨m, ⟨rfl, same⟩, rfl⟩

theorem lexes_nil : Lexes [] i r ↔ r = trim i := by
  constructor
  · intro lexed
    cases lexed
    rfl
  · rintro rfl
    exact .nil

theorem lexes_cons :
    Lexes (token :: tokens) i r ↔ ∃ m, trim i = token.text ++ m ∧ Lexes tokens m r := by
  constructor
  · intro lexed
    cases lexed with
    | cons starts rest => exact ⟨_, starts, rest⟩
  · rintro ⟨m, starts, rest⟩
    exact .cons starts rest

theorem Lexes.trimmed (lexed : Lexes tokens i r) : trim r = r := by
  induction lexed with
  | nil => exact trim_trim _
  | cons _ _ ih => exact ih

theorem lexes_trim : Lexes tokens (trim i) r ↔ Lexes tokens i r := by
  constructor
  · intro lexed
    cases lexed with
    | nil => rw [trim_trim]; exact .nil
    | cons starts rest => exact .cons (by rwa [trim_trim] at starts) rest
  · intro lexed
    cases lexed with
    | nil => simpa using (Lexes.nil (i := trim i))
    | cons starts rest => exact .cons (by rwa [trim_trim]) rest

theorem Lexes.append (first : Lexes tokens i m) (second : Lexes others m r) :
    Lexes (tokens ++ others) i r := by
  induction first with
  | nil => exact lexes_trim.mp second
  | cons starts _ ih => exact .cons starts (ih second)

theorem Lexes.split (lexed : Lexes (tokens ++ others) i r) :
    ∃ m, Lexes tokens i m ∧ Lexes others m r := by
  induction tokens generalizing i with
  | nil => exact ⟨trim i, .nil, lexes_trim.mpr lexed⟩
  | cons token tokens ih =>
      cases lexed with
      | cons starts rest =>
          obtain ⟨m, first, second⟩ := ih rest
          exact ⟨m, .cons starts first, second⟩

theorem Lexes.length_le (lexed : Lexes tokens i r) : r.length ≤ i.length := by
  induction lexed with
  | nil => exact trim_length_le _
  | @cons token tokens i m r starts _ ih =>
      have shorter := trim_length_le i
      rw [starts, List.length_append] at shorter
      omega

/-- A token whose text a parser can find again after skipping whitespace. -/
def Token.Solid (token : Token) : Prop :=
  ∃ c text, token.text = c :: text ∧ isMultispace c = false

theorem Token.Solid.trim_append (solid : token.Solid) (m : Str) :
    trim (token.text ++ m) = token.text ++ m := by
  obtain ⟨c, text, same, nonspace⟩ := solid
  rw [same, List.cons_append]
  exact trim_of_head nonspace

theorem Lexes.shorter (lexed : Lexes (token :: tokens) i r) (solid : token.Solid) :
    r.length < i.length := by
  cases lexed with
  | cons starts rest =>
      obtain ⟨c, text, same, -⟩ := solid
      have shorter := trim_length_le i
      have tail := rest.length_le
      rw [starts, same, List.length_append, List.length_cons] at shorter
      omega

theorem lexes_of_spells (solid : ∀ token ∈ tokens, token.Solid) (spelled : Spells tokens i) :
    Lexes tokens i [] := by
  induction spelled with
  | @nil spaces blank =>
      have empty : trim spaces = [] := by simpa using trim_spaces_append (i := []) blank
      have lexed := Lexes.nil (i := spaces)
      rwa [empty] at lexed
  | @cons spaces tokens text token blank _ ih =>
      refine .cons (m := text) ?_ (ih fun other member => solid other (by simp [member]))
      rw [List.append_assoc, trim_spaces_append blank]
      exact (solid token (by simp)).trim_append text

theorem spells_of_lexes (lexed : Lexes tokens i r) (finished : r = []) : Spells tokens i := by
  induction lexed with
  | @nil i =>
      obtain ⟨spaces, blank, same⟩ := exists_spaces_append_trim i
      rw [finished, List.append_nil] at same
      rw [same]
      exact .nil blank
  | @cons token tokens i m r starts _ ih =>
      obtain ⟨spaces, blank, same⟩ := exists_spaces_append_trim i
      rw [same, starts, ← List.append_assoc]
      exact .cons blank (ih finished)

/-! ## Identifiers -/

theorem isIdentRest_of_isAlpha {c : Char} (alpha : isAlpha c = true) : isIdentRest c = true := by
  have alphanum : c.isAlphanum = true := by
    simp only [isAlpha] at alpha
    simp [Char.isAlphanum, alpha]
  simp [isIdentRest, isAlphanum, alphanum]



theorem isMultispace_eq_false_of_isIdentStart {c : Char} (start : isIdentStart c = true) :
    isMultispace c = false := by
  by_contra space
  rw [Bool.not_eq_false, isMultispace_iff] at space
  rcases space with rfl | rfl | rfl | rfl <;> exact absurd start (by decide)

/-- One item of the repetition in `identifier`. -/
def identPart : Parser Str := alt alphanumeric1 (tag ['_'])

theorem takeWhile1_eq_some {accepts : Char → Bool} (read : takeWhile1 accepts i = some (r, m)) :
    m ≠ [] ∧ r = i.dropWhile accepts ∧ m = i.takeWhile accepts := by
  unfold takeWhile1 at read
  split at read
  · contradiction
  · rename_i nonempty
    cases read
    exact ⟨nonempty, rfl, rfl⟩

theorem identPart_consumes : Consumes identPart := by
  intro input rest output parsed
  rcases alt_eq_some.mp parsed with word | ⟨-, underscore⟩
  · obtain ⟨nonempty, rfl, rfl⟩ := takeWhile1_eq_some word
    exact ⟨_, nonempty, List.takeWhile_append_dropWhile.symm⟩
  · exact ⟨['_'], by simp, (tag_eq_some.mp underscore).2⟩

/-- Every item reads identifier characters only, and the repetition stops
where they end. -/
theorem identPart_eq_some (parsed : identPart i = some (r, m)) :
    r.dropWhile isIdentRest = i.dropWhile isIdentRest := by
  rcases alt_eq_some.mp parsed with word | ⟨-, underscore⟩
  · obtain ⟨-, rfl, -⟩ := takeWhile1_eq_some word
    conv_rhs => rw [← List.takeWhile_append_dropWhile (p := isAlphanum) (l := i)]
    rw [List.dropWhile_append_of_pos]
    intro c member
    have accepted : isAlphanum c = true := List.mem_takeWhile_imp member
    simp [isIdentRest, accepted]
  · obtain ⟨-, rfl⟩ := tag_eq_some.mp underscore
    simp [isIdentRest]

theorem identPart_eq_none (failed : identPart i = none) : i.dropWhile isIdentRest = i := by
  cases i with
  | nil => rfl
  | cons c text =>
      have rejected : isIdentRest c = false := by
        by_contra accepted
        simp only [isIdentRest, Bool.not_eq_false, Bool.or_eq_true, beq_iff_eq] at accepted
        rcases accepted with alphanum | rfl
        · simp [identPart, alt, alphanumeric1, takeWhile1, alphanum] at failed
        · simp [identPart, alt, alphanumeric1, takeWhile1, tag, isAlphanum] at failed
      simp [rejected]

theorem many_identPart (size : Nat) (small : i.length ≤ size) :
    ∃ parts, Many identPart i parts (i.dropWhile isIdentRest) := by
  induction size generalizing i with
  | zero =>
      have empty : i = [] := List.length_eq_zero_iff.mp (Nat.le_zero.mp small)
      subst empty
      exact ⟨[], .stop (by decide)⟩
  | succ size ih =>
      cases parsed : identPart i with
      | none =>
          rw [identPart_eq_none parsed]
          exact ⟨[], .stop parsed⟩
      | some result =>
          obtain ⟨rest, part⟩ := result
          have shorter := identPart_consumes.shorter parsed
          obtain ⟨parts, run⟩ := ih (i := rest) (by omega)
          rw [identPart_eq_some parsed] at run
          exact ⟨part :: parts, .more parsed run⟩

theorem many0_identPart (i : Str) :
    ∃ parts, many0 identPart i = some (i.dropWhile isIdentRest, parts) := by
  obtain ⟨parts, run⟩ := many_identPart i.length (Nat.le_refl _)
  exact ⟨parts, (many0_eq_some identPart_consumes).mpr run⟩

/-- `identifier` reads the longest identifier at the front of its input. -/
theorem identifier_cons (c : Char) (text : Str) :
    identifier (c :: text) =
      if isIdentStart c = true then
        some (text.dropWhile isIdentRest, c :: text.takeWhile isIdentRest)
      else none := by
  have recognized : ∀ rest, (∃ parts, many0 identPart rest = some (text.dropWhile isIdentRest, parts)) →
      (∃ output, alt alpha1 (tag ['_']) (c :: text) = some (rest, output)) →
      identifier (c :: text) = some (text.dropWhile isIdentRest, c :: text.takeWhile isIdentRest) := by
    rintro rest ⟨parts, following⟩ ⟨output, first⟩
    have parsed : pair (alt alpha1 (tag ['_'])) (many0 identPart) (c :: text) =
        some (text.dropWhile isIdentRest, output, parts) :=
      pair_eq_some.mpr ⟨rest, first, following⟩
    have consumed : (c :: text).take ((c :: text).length - (text.dropWhile isIdentRest).length) =
        c :: text.takeWhile isIdentRest := by
      have total : (c :: text).length =
          (c :: text.takeWhile isIdentRest).length + (text.dropWhile isIdentRest).length := by
        rw [← List.length_append, List.cons_append, List.takeWhile_append_dropWhile]
      rw [total, Nat.add_sub_cancel]
      conv_lhs =>
        arg 2
        rw [← List.takeWhile_append_dropWhile (p := isIdentRest) (l := text), ← List.cons_append]
      exact List.take_left
    change recognize (pair (alt alpha1 (tag ['_'])) (many0 identPart)) (c :: text) = _
    simp only [recognize, parsed, consumed]
  by_cases alpha : isAlpha c = true
  · have start : isIdentStart c = true := by simp [isIdentStart, alpha]
    rw [if_pos start]
    refine recognized (text.dropWhile isAlpha) ?_ ⟨c :: text.takeWhile isAlpha, ?_⟩
    · obtain ⟨parts, run⟩ := many0_identPart (text.dropWhile isAlpha)
      refine ⟨parts, ?_⟩
      rw [run]
      congr 2
      conv_rhs => rw [← List.takeWhile_append_dropWhile (p := isAlpha) (l := text)]
      rw [List.dropWhile_append_of_pos]
      exact fun d member => isIdentRest_of_isAlpha (List.mem_takeWhile_imp member)
    · exact alt_of_first (by simp [alpha1, takeWhile1, alpha])
  · have noWord : alpha1 (c :: text) = none := by simp [alpha1, takeWhile1, alpha]
    by_cases underscore : c = '_'
    · subst underscore
      rw [if_pos (by decide)]
      exact recognized text (many0_identPart text) ⟨['_'], (alt_of_second noWord).trans (tag_append ['_'] text)⟩
    · have start : ¬ isIdentStart c = true := by simp [isIdentStart, alpha, underscore]
      rw [if_neg start]
      have failed : alt alpha1 (tag ['_']) (c :: text) = none := by
        rw [alt_of_second noWord]
        simp [tag, underscore]
      simp [identifier, recognize, pair, failed]

theorem identifier_eq_some : identifier i = some (r, m) ↔
    IsIdent m ∧ i = m ++ r ∧ ∀ c text, r = c :: text → isIdentRest c = false := by
  cases i with
  | nil =>
      constructor
      · intro parsed
        exact absurd parsed (by simp [identifier, recognize, pair, alt, alpha1, takeWhile1, tag])
      · rintro ⟨ident, same, -⟩
        obtain ⟨rfl, rfl⟩ := List.append_eq_nil_iff.mp same.symm
        exact ident.elim
  | cons c text =>
      rw [identifier_cons]
      constructor
      · intro parsed
        split at parsed
        · rename_i start
          cases parsed
          refine ⟨⟨start, fun d member => List.mem_takeWhile_imp member⟩, by simp, ?_⟩
          intro d tail same
          have first := List.head?_dropWhile_not isIdentRest text
          simpa [same] using first
        · contradiction
      · rintro ⟨ident, same, stops⟩
        cases m with
        | nil => exact ident.elim
        | cons head tail =>
            obtain ⟨start, accepted⟩ := ident
            simp only [List.cons_append, List.cons.injEq] at same
            obtain ⟨rfl, rfl⟩ := same
            rw [if_pos start, List.takeWhile_append_of_pos accepted, List.dropWhile_append_of_pos accepted]
            cases r with
            | nil => simp
            | cons d rest => simp [stops d rest rfl]

end Eafcc.Parser.Grammar
