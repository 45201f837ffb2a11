import Eafcc.Parser.Rule

namespace Eafcc.Parser.Rule

open Nom Eafcc.RuleEngine

/-! # What the literal scanner accepts -/

def isNormal (c : Char) : Bool :=
  !(c == '\\' || c == '"' || (c.toNat < 32 || c.toNat == 127))

def isLetterEscape (c : Char) : Bool :=
  c ∈ ['"', '\\', '/', 'b', 'f', 'n', 'r', 't']

def isHexOrU (c : Char) : Bool := isAsciiHexdigit c || c == 'u'

/-- The texts that `escaped` accepts between the quotes. -/
inductive Body : Str → Prop
  | nil : Body []
  | plain : isNormal c = true → Body text → Body (c :: text)
  | letter : isLetterEscape e = true → Body text → Body ('\\' :: e :: text)
  | unicode : (∀ h ∈ [h₁, h₂, h₃, h₄], isHexOrU h = true) → Body text →
      Body ('\\' :: 'u' :: h₁ :: h₂ :: h₃ :: h₄ :: text)

variable {i r m : Str}

theorem Body.append (first : Body left) (second : Body right) : Body (left ++ right) := by
  induction first with
  | nil => exact second
  | plain accepted _ ih => exact .plain accepted ih
  | letter accepted _ ih => exact .letter accepted ih
  | unicode accepted _ ih => exact .unicode accepted ih

theorem Body.of_normal (accepted : ∀ c ∈ m, isNormal c = true) : Body m := by
  induction m with
  | nil => exact .nil
  | cons c text ih =>
      exact .plain (accepted c (by simp)) (ih fun d member => accepted d (by simp [member]))

theorem Body.dropNormal (body : Body m) : Body (m.dropWhile isNormal) := by
  induction body with
  | nil => exact .nil
  | plain accepted _ ih => simpa [List.dropWhile_cons, accepted] using ih
  | letter accepted rest _ => simpa [List.dropWhile_cons, isNormal] using Body.letter accepted rest
  | unicode accepted rest _ => simpa [List.dropWhile_cons, isNormal] using Body.unicode accepted rest

theorem Body.head_ne_quote (body : Body ('"' :: m)) : False := by
  cases body with
  | plain accepted _ => simp [isNormal] at accepted

theorem normal_eq (i : Str) :
    normal i = if i.takeWhile isNormal = [] then none
      else some (i.dropWhile isNormal, i.takeWhile isNormal) := rfl

theorem normal_eq_none {c : Char} (rejected : isNormal c = false) : normal (c :: i) = none := by
  simp [normal_eq, rejected]

theorem normal_eq_some {c : Char} (accepted : isNormal c = true) :
    normal (c :: i) = some (i.dropWhile isNormal, c :: i.takeWhile isNormal) := by
  simp [normal_eq, accepted]

/-- Exactly five characters `u` or hexadecimal digit, the first of them a `u`. -/
theorem parseHex_eq_some (parsed : parseHex i = some (r, m)) :
    ∃ h₁ h₂ h₃ h₄, (∀ h ∈ [h₁, h₂, h₃, h₄], isHexOrU h = true) ∧
      i = 'u' :: h₁ :: h₂ :: h₃ :: h₄ :: r := by
  obtain ⟨middle, output, peeked, taken⟩ := preceded_eq_some.mp parsed
  have starts : ∃ tail, i = 'u' :: tail ∧ middle = i := by
    unfold peek at peeked
    cases read : tag ['u'] i with
    | none => simp [read] at peeked
    | some result =>
        obtain ⟨rest, literal⟩ := result
        simp only [read, Option.some.injEq, Prod.mk.injEq] at peeked
        exact ⟨rest, (tag_eq_some.mp read).2, peeked.1.symm⟩
  obtain ⟨tail, rfl, rfl⟩ := starts
  unfold takeWhileMN at taken
  dsimp only at taken
  split at taken
  · contradiction
  · rename_i enough
    simp only [Option.some.injEq, Prod.mk.injEq] at taken
    obtain ⟨restEq, rfl⟩ := taken
    have run : ∀ c ∈ ('u' :: tail).takeWhile isHexOrU, isHexOrU c = true :=
      fun c member => (List.mem_takeWhile_imp member)
    have prefixes : ('u' :: tail).takeWhile isHexOrU <+: 'u' :: tail := List.takeWhile_prefix _
    change ¬ (((('u' :: tail).takeWhile isHexOrU).take 5).length < 5) at enough
    change ('u' :: tail).drop ((('u' :: tail).takeWhile isHexOrU).take 5).length = r at restEq
    generalize ('u' :: tail).takeWhile isHexOrU = taken at run prefixes enough restEq
    obtain ⟨unread, same⟩ := prefixes
    match taken with
    | [] | [_] | [_, _] | [_, _, _] | [_, _, _, _] => simp at enough
    | u :: h₁ :: h₂ :: h₃ :: h₄ :: more =>
        simp only [List.cons_append, List.cons.injEq] at same
        obtain ⟨rfl, rfl⟩ := same
        refine ⟨h₁, h₂, h₃, h₄, fun h member => run h ?_, ?_⟩
        · simp only [List.mem_cons, List.not_mem_nil, or_false] at member ⊢
          tauto
        · simpa using restEq

theorem parseHex_unicode (accepted : ∀ h ∈ [h₁, h₂, h₃, h₄], isHexOrU h = true) :
    parseHex ('u' :: h₁ :: h₂ :: h₃ :: h₄ :: r) = some (r, ['u', h₁, h₂, h₃, h₄]) := by
  have first := accepted h₁ (by simp)
  have second := accepted h₂ (by simp)
  have third := accepted h₃ (by simp)
  have fourth := accepted h₄ (by simp)
  have run : ('u' :: h₁ :: h₂ :: h₃ :: h₄ :: r).takeWhile isHexOrU =
      'u' :: h₁ :: h₂ :: h₃ :: h₄ :: r.takeWhile isHexOrU := by
    simp [first, second, third, fourth, show isHexOrU 'u' = true by decide]
  have taken : takeWhileMN 5 5 isHexOrU ('u' :: h₁ :: h₂ :: h₃ :: h₄ :: r) =
      some (r, ['u', h₁, h₂, h₃, h₄]) := by
    simp [takeWhileMN, run]
  have peeked : peek (tag ['u']) ('u' :: h₁ :: h₂ :: h₃ :: h₄ :: r) =
      some ('u' :: h₁ :: h₂ :: h₃ :: h₄ :: r, ['u']) := by
    simp [peek, tag]
  exact preceded_eq_some.mpr ⟨_, _, peeked, taken⟩

theorem escapable_letter (accepted : isLetterEscape e = true) :
    ∃ output, escapable (e :: r) = some (r, output) := by
  simp only [isLetterEscape, List.mem_cons, List.not_mem_nil, or_false, decide_eq_true_eq] at accepted
  rcases accepted with rfl | rfl | rfl | rfl | rfl | rfl | rfl | rfl <;>
    exact ⟨_, by simp [escapable, alt, tag]; rfl⟩

theorem escapable_unicode (accepted : ∀ h ∈ [h₁, h₂, h₃, h₄], isHexOrU h = true) :
    escapable ('u' :: h₁ :: h₂ :: h₃ :: h₄ :: r) = some (r, ['u', h₁, h₂, h₃, h₄]) := by
  simp [escapable, alt, tag, parseHex_unicode accepted]

/-- What one call of `escapable` reads after the backslash. -/
def EscapeRead (i r : Str) : Prop :=
  (∃ e, isLetterEscape e = true ∧ i = e :: r) ∨
  (∃ h₁ h₂ h₃ h₄, (∀ h ∈ [h₁, h₂, h₃, h₄], isHexOrU h = true) ∧
    i = 'u' :: h₁ :: h₂ :: h₃ :: h₄ :: r)

theorem escapeRead_alt {e : Char} {others : Parser Str} (accepted : isLetterEscape e = true)
    (following : others i = some (r, m) → EscapeRead i r)
    (parsed : alt (tag [e]) others i = some (r, m)) : EscapeRead i r := by
  rcases alt_eq_some.mp parsed with read | ⟨-, parsed⟩
  · exact .inl ⟨e, accepted, (tag_eq_some.mp read).2⟩
  · exact following parsed

theorem escapable_sound (parsed : escapable i = some (r, m)) : EscapeRead i r := by
  unfold escapable at parsed
  refine escapeRead_alt (by decide) (fun parsed => ?_) parsed
  refine escapeRead_alt (by decide) (fun parsed => ?_) parsed
  refine escapeRead_alt (by decide) (fun parsed => ?_) parsed
  refine escapeRead_alt (by decide) (fun parsed => ?_) parsed
  refine escapeRead_alt (by decide) (fun parsed => ?_) parsed
  refine escapeRead_alt (by decide) (fun parsed => ?_) parsed
  refine escapeRead_alt (by decide) (fun parsed => ?_) parsed
  refine escapeRead_alt (by decide) (fun parsed => ?_) parsed
  exact .inr (parseHex_eq_some parsed)

/-! ## The `escaped` scanner -/

/-- A turn of the loop reads text of a body, and the loop ends with it or goes on. Or
the turn stops the loop before a character that is neither normal nor a backslash, and
only after something was read. -/
theorem escapedLoop_turn {input current : Str} {fuel : Nat}
    (parsed : escapedLoop normal '\\' escapable input (fuel + 1) current = some (r, m)) :
    (∃ token rest, Body token ∧ current = token ++ rest ∧
      (rest = [] ∧ r = [] ∧ m = input ∨
        escapedLoop normal '\\' escapable input fuel rest = some (r, m))) ∨
    (r = current ∧ current.length ≠ input.length ∧ m = input.take (input.length - current.length)) := by
  cases current with
  | nil =>
      simp only [escapedLoop, Option.some.injEq, Prod.mk.injEq] at parsed
      obtain ⟨rfl, rfl⟩ := parsed
      exact .inl ⟨[], [], .nil, rfl, .inl ⟨rfl, rfl, rfl⟩⟩
  | cons head tail =>
      by_cases accepted : isNormal head = true
      · have run : Body (head :: tail.takeWhile isNormal) := by
          apply Body.of_normal
          intro c member
          rcases List.mem_cons.mp member with rfl | member
          · exact accepted
          · exact List.mem_takeWhile_imp member
        refine .inl ⟨_, tail.dropWhile isNormal, run, by simp, ?_⟩
        simp only [escapedLoop, normal_eq_some accepted] at parsed
        split at parsed
        · rename_i ended
          cases parsed
          exact .inl ⟨ended, rfl, rfl⟩
        · split at parsed
          · rename_i same
            have shorter := (List.dropWhile_suffix isNormal (l := tail)).length_le
            simp only [List.length_cons] at same
            omega
          · exact .inr parsed
      · have rejected : isNormal head = false := by simpa using accepted
        simp only [escapedLoop, normal_eq_none rejected] at parsed
        split at parsed
        · rename_i backslash
          subst backslash
          split at parsed
          · contradiction
          · cases escape : escapable tail with
            | none => simp [escape] at parsed
            | some result =>
                obtain ⟨rest, output⟩ := result
                simp only [escape] at parsed
                obtain ⟨token, tokenBody, tokenRead⟩ :
                    ∃ token, Body token ∧ '\\' :: tail = token ++ rest := by
                  rcases escapable_sound escape with ⟨e, letter, rfl⟩ | ⟨h₁, h₂, h₃, h₄, hex, rfl⟩
                  · exact ⟨['\\', e], .letter letter .nil, rfl⟩
                  · exact ⟨['\\', 'u', h₁, h₂, h₃, h₄], .unicode hex .nil, rfl⟩
                refine .inl ⟨token, rest, tokenBody, tokenRead, ?_⟩
                split at parsed
                · rename_i ended
                  cases parsed
                  exact .inl ⟨ended, rfl, rfl⟩
                · exact .inr parsed
        · split at parsed
          · contradiction
          · rename_i advanced
            cases parsed
            exact .inr ⟨rfl, advanced, rfl⟩

/-- The loop keeps the text read so far a body. -/
theorem escapedLoop_sound {input current : Str} {fuel : Nat}
    (parsed : escapedLoop normal '\\' escapable input fuel current = some (r, m))
    (split : input = seen ++ current) (body : Body seen) :
    Body m ∧ input = m ++ r ∧ (m = [] → r = []) := by
  induction fuel generalizing current seen with
  | zero => simp [escapedLoop] at parsed
  | succ fuel ih =>
      rcases escapedLoop_turn parsed with ⟨token, rest, tokenBody, rfl, next⟩ | ⟨rfl, advanced, rfl⟩
      · have joined : input = (seen ++ token) ++ rest := by rw [split, List.append_assoc]
        rcases next with ⟨rfl, rfl, rfl⟩ | onward
        · rw [List.append_nil] at joined
          exact ⟨joined ▸ body.append tokenBody, by simp, fun _ => rfl⟩
        · exact ih onward joined (body.append tokenBody)
      · have taken : input.take (input.length - r.length) = seen := by
          rw [split]
          simp
        rw [taken]
        refine ⟨body, split, fun nothing => ?_⟩
        subst nothing
        exact absurd (congrArg List.length split).symm advanced

/-- An escape is read and the loop goes on behind it. -/
theorem escapedLoop_escape {input tail rest output : Str} {fuel : Nat}
    (escape : escapable tail = some (rest, output)) (left : tail ≠ []) (unfinished : rest ≠ []) :
    escapedLoop normal '\\' escapable input (fuel + 1) ('\\' :: tail) =
      escapedLoop normal '\\' escapable input fuel rest := by
  simp only [escapedLoop, normal_eq_none (show isNormal '\\' = false by decide), escape, if_true, if_neg left,
    if_neg unfinished]

/-- Before a closing quote the loop reads the whole body. -/
theorem escapedLoop_complete (size : Nat) (seen : Str) {body : Str} (small : body.length ≤ size)
    (valid : Body body) (nonempty : seen ++ body ≠ []) :
    ∀ fuel, body.length < fuel →
      escapedLoop normal '\\' escapable (seen ++ body ++ '"' :: r) fuel (body ++ '"' :: r) =
        some ('"' :: r, seen ++ body) := by
  induction size generalizing seen body with
  | zero =>
      intro fuel enough
      obtain ⟨fuel, rfl⟩ := Nat.exists_eq_succ_of_ne_zero (Nat.ne_of_gt (Nat.zero_lt_of_lt enough))
      have empty : body = [] := List.length_eq_zero_iff.mp (Nat.le_zero.mp small)
      subst empty
      have positive : 0 < seen.length := List.length_pos_iff.mpr (by simpa using nonempty)
      have differ : ('"' :: r).length ≠ (seen ++ [] ++ '"' :: r).length := by
        simp only [List.append_nil, List.length_append]
        omega
      simp only [List.nil_append, escapedLoop,
        normal_eq_none (show isNormal '"' = false by decide), if_neg differ]
      simp
  | succ size ih =>
      intro fuel enough
      obtain ⟨fuel, rfl⟩ := Nat.exists_eq_succ_of_ne_zero (Nat.ne_of_gt (Nat.zero_lt_of_lt enough))
      cases valid with
      | nil => exact ih _ (Nat.zero_le _) .nil nonempty _ enough
      | @plain c text accepted rest =>
          have closing : (text ++ '"' :: r).dropWhile isNormal = text.dropWhile isNormal ++ '"' :: r := by
            rw [List.dropWhile_append]
            split
            · rename_i ended
              simp only [List.isEmpty_iff] at ended
              simp [ended, show isNormal '"' = false by decide]
            · rfl
          have shorter := (List.dropWhile_suffix isNormal (l := text)).length_le
          have unfinished : ¬ (text.dropWhile isNormal ++ '"' :: r) = [] := by simp
          have differ : ¬ (text.dropWhile isNormal ++ '"' :: r).length =
              (c :: (text ++ '"' :: r)).length := by
            simp only [List.length_append, List.length_cons]
            omega
          have regroup : seen ++ c :: text =
              (seen ++ c :: text.takeWhile isNormal) ++ text.dropWhile isNormal := by
            simp
          simp only [List.length_cons] at small enough
          simp only [List.cons_append, escapedLoop, normal_eq_some accepted, closing,
            if_neg unfinished, if_neg differ]
          rw [regroup]
          exact ih _ (by omega) rest.dropNormal (by simp) fuel (by omega)
      | @letter e text accepted rest =>
          obtain ⟨output, escape⟩ := escapable_letter (r := text ++ '"' :: r) accepted
          have regroup : seen ++ '\\' :: e :: text = (seen ++ ['\\', e]) ++ text := by simp
          simp only [List.length_cons] at small enough
          rw [regroup]
          refine (escapedLoop_escape escape (by simp) (by simp)).trans ?_
          exact ih _ (by omega) rest (by simp) fuel (by omega)
      | @unicode h₁ h₂ h₃ h₄ text accepted rest =>
          have escape := escapable_unicode (r := text ++ '"' :: r) accepted
          have regroup : seen ++ '\\' :: 'u' :: h₁ :: h₂ :: h₃ :: h₄ :: text =
              (seen ++ ['\\', 'u', h₁, h₂, h₃, h₄]) ++ text := by simp
          simp only [List.length_cons] at small enough
          rw [regroup]
          refine (escapedLoop_escape escape (by simp) (by simp)).trans ?_
          exact ih _ (by omega) rest (by simp) fuel (by omega)

/-- The scanner returns the text between the quotes, except for the empty
literal, for which it returns the two quotes. -/
theorem string_eq_some : string i = some (r, m) ↔
    (m = ['"', '"'] ∧ i = m ++ r) ∨ (Body m ∧ m ≠ [] ∧ i = '"' :: (m ++ '"' :: r)) := by
  constructor
  · intro parsed
    rcases alt_eq_some.mp parsed with read | ⟨-, parsed⟩
    · obtain ⟨rfl, same⟩ := tag_eq_some.mp read
      exact .inl ⟨rfl, same⟩
    · obtain ⟨inner, closing, _, _, opened, scanned, closed⟩ := delimited_eq_some.mp parsed
      obtain ⟨-, rfl⟩ := tag_eq_some.mp opened
      obtain ⟨-, rfl⟩ := tag_eq_some.mp closed
      obtain ⟨body, same, stopped⟩ := escapedLoop_sound scanned (List.nil_append _).symm .nil
      refine .inr ⟨body, fun empty => ?_, by simp [same]⟩
      simp at stopped
      exact stopped empty
  · rintro (⟨rfl, rfl⟩ | ⟨body, nonempty, rfl⟩)
    · exact alt_of_first (tag_append _ _)
    · have notEmpty : tag ['"', '"'] ('"' :: (m ++ '"' :: r)) = none := by
        apply tag_eq_none.mpr
        intro rest same
        cases m with
        | nil => exact nonempty rfl
        | cons c text =>
            simp only [List.cons_append, List.nil_append, List.cons.injEq, true_and] at same
            obtain ⟨rfl, -⟩ := same
            exact body.head_ne_quote
      have scanned : parseStr (m ++ '"' :: r) = some ('"' :: r, m) := by
        have complete := escapedLoop_complete m.length [] (r := r) (Nat.le_refl _) body
          (by simpa using nonempty) ((m ++ '"' :: r).length + 1)
          (by simp only [List.length_append, List.length_cons]; omega)
        simpa [parseStr, escaped] using complete
      refine (alt_of_second notEmpty).trans ?_
      exact delimited_eq_some.mpr ⟨_, _, _, _, tag_append ['"'] _, scanned, tag_append ['"'] _⟩

/-! ## Literals as tokens -/

section Literals

variable {unescape : Str → Option Str} {value : Value}

theorem rhsLiteral_eq_some : rhsLiteral unescape i = some (r, value) ↔
    ∃ m s, string i = some (r, m) ∧ unescape m = some s ∧ value = .str s := by
  unfold rhsLiteral
  rw [mapRes_eq_some]
  unfold unescapeStr
  constructor
  · rintro ⟨m, parsed, decoded⟩
    cases found : unescape m with
    | none => simp [found] at decoded
    | some s =>
        simp only [found, Option.some.injEq] at decoded
        exact ⟨m, s, parsed, found, decoded.symm⟩
  · rintro ⟨m, s, parsed, decoded, rfl⟩
    exact ⟨m, parsed, by simp [decoded]⟩

/-- A literal is read the same whatever follows it. -/
theorem rhsLiteral_append {literal : Str} (parsed : rhsLiteral unescape literal = some ([], value)) :
    rhsLiteral unescape (literal ++ r) = some (r, value) := by
  obtain ⟨m, s, scanned, decoded, rfl⟩ := rhsLiteral_eq_some.mp parsed
  refine rhsLiteral_eq_some.mpr ⟨m, s, ?_, decoded, rfl⟩
  rcases string_eq_some.mp scanned with ⟨rfl, rfl⟩ | ⟨body, nonempty, rfl⟩
  · exact string_eq_some.mpr (.inl ⟨rfl, by simp⟩)
  · exact string_eq_some.mpr (.inr ⟨body, nonempty, by simp⟩)

theorem rhsLiteral_split (parsed : rhsLiteral unescape i = some (r, value)) :
    ∃ literal, i = literal ++ r ∧ rhsLiteral unescape literal = some ([], value) := by
  obtain ⟨m, s, scanned, decoded, rfl⟩ := rhsLiteral_eq_some.mp parsed
  rcases string_eq_some.mp scanned with ⟨rfl, rfl⟩ | ⟨body, nonempty, rfl⟩
  · exact ⟨_, rfl, rhsLiteral_eq_some.mpr
      ⟨_, s, string_eq_some.mpr (.inl ⟨rfl, by simp⟩), decoded, rfl⟩⟩
  · exact ⟨'"' :: (m ++ ['"']), by simp, rhsLiteral_eq_some.mpr
      ⟨m, s, string_eq_some.mpr (.inr ⟨body, nonempty, rfl⟩), decoded, rfl⟩⟩

theorem rhsLiteral_starts_with_quote (parsed : rhsLiteral unescape i = some (r, value)) :
    ∃ tail, i = '"' :: tail := by
  obtain ⟨m, s, scanned, -, -⟩ := rhsLiteral_eq_some.mp parsed
  rcases string_eq_some.mp scanned with ⟨rfl, rfl⟩ | ⟨-, -, rfl⟩
  · exact ⟨_, rfl⟩
  · exact ⟨_, rfl⟩

end Literals

end Eafcc.Parser.Rule
