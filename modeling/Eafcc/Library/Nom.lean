import Mathlib

namespace Nom

/-! # Complete parser combinators

The complete combinators of the parser library nom, version 6, over a list of
characters.  A result carries the unread input and the output, in that order.
Every failure of a complete combinator is the recoverable one, so a failure is
`none` and the position and kind it reports are left out.
-/

abbrev Input := List Char
abbrev IResult (α : Type) := Option (Input × α)
abbrev Parser (α : Type) := Input → IResult α

variable {α β γ : Type}

def tag (literal : Input) : Parser Input := fun input =>
  if input.take literal.length = literal then some (input.drop literal.length, literal) else none

def takeWhile1 (accepts : Char → Bool) : Parser Input := fun input =>
  if input.takeWhile accepts = [] then none
  else some (input.dropWhile accepts, input.takeWhile accepts)

def takeTill1 (stops : Char → Bool) : Parser Input := takeWhile1 (fun c => !stops c)

/-- Takes at most `most` and at least `least` leading accepted characters. -/
def takeWhileMN (least most : Nat) (accepts : Char → Bool) : Parser Input := fun input =>
  let taken := (input.takeWhile accepts).take most
  if taken.length < least then none else some (input.drop taken.length, taken)

def isAlpha (c : Char) : Bool := c.isAlpha
def isAlphanum (c : Char) : Bool := c.isAlphanum
def isMultispace (c : Char) : Bool := c == ' ' || c == '\t' || c == '\r' || c == '\n'

def alpha1 : Parser Input := takeWhile1 isAlpha
def alphanumeric1 : Parser Input := takeWhile1 isAlphanum
def multispace0 : Parser Input := fun input =>
  some (input.dropWhile isMultispace, input.takeWhile isMultispace)

def alt (first second : Parser α) : Parser α := fun input =>
  match first input with
  | some result => some result
  | none => second input

def map (parser : Parser α) (f : α → β) : Parser β := fun input =>
  match parser input with
  | some (rest, output) => some (rest, f output)
  | none => none

def mapRes (parser : Parser α) (f : α → Option β) : Parser β := fun input =>
  match parser input with
  | some (rest, output) =>
      match f output with
      | some value => some (rest, value)
      | none => none
  | none => none

def pair (first : Parser α) (second : Parser β) : Parser (α × β) := fun input =>
  match first input with
  | some (rest, left) =>
      match second rest with
      | some (rest, right) => some (rest, left, right)
      | none => none
  | none => none

def preceded (first : Parser α) (second : Parser β) : Parser β :=
  map (pair first second) Prod.snd

def delimited (first : Parser α) (second : Parser β) (third : Parser γ) : Parser β :=
  map (pair first (pair second third)) (fun output => output.2.1)

def peek (parser : Parser α) : Parser α := fun input =>
  match parser input with
  | some (_, output) => some (input, output)
  | none => none

/-- The consumed prefix, whatever the parser returned for it. -/
def recognize (parser : Parser α) : Parser Input := fun input =>
  match parser input with
  | some (rest, _) => some (rest, input.take (input.length - rest.length))
  | none => none

/-- The loop of `many0`. A success that reads nothing is the error that keeps
the repetition from running forever. -/
def many0Loop (parser : Parser α) : Nat → Parser (List α)
  | 0, _ => none
  | fuel + 1, input =>
      match parser input with
      | none => some (input, [])
      | some (rest, output) =>
          if rest = input then none
          else match many0Loop parser fuel rest with
            | some (final, outputs) => some (final, output :: outputs)
            | none => none

def many0 (parser : Parser α) : Parser (List α) := fun input =>
  many0Loop parser (input.length + 1) input

/-- The loop of `escaped`: `input` is the whole text it was given and `current`
what is still unread of it. -/
def escapedLoop (normal : Parser α) (control : Char) (escapable : Parser β) (input : Input) :
    Nat → Input → IResult Input
  | 0, _ => none
  | fuel + 1, current =>
      match current with
      | [] => some ([], input)
      | head :: tail =>
          match normal current with
          | some (rest, _) =>
              if rest = [] then some ([], input)
              else if rest.length = current.length then
                some (rest, input.take (input.length - rest.length))
              else escapedLoop normal control escapable input fuel rest
          | none =>
              if head = control then
                if tail = [] then none
                else match escapable tail with
                  | some (rest, _) =>
                      if rest = [] then some ([], input)
                      else escapedLoop normal control escapable input fuel rest
                  | none => none
              else if current.length = input.length then none
              else some (current, input.take (input.length - current.length))

def escaped (normal : Parser α) (control : Char) (escapable : Parser β) : Parser Input :=
  fun input => escapedLoop normal control escapable input (input.length + 1) input

/-! ## Reading rules -/

section Rules

variable {input rest middle : Input} {parser : Parser α} {output : α}

theorem tag_append (literal rest : Input) : tag literal (literal ++ rest) = some (rest, literal) := by
  simp [tag]

theorem tag_eq_some {literal read : Input} :
    tag literal input = some (rest, read) ↔ read = literal ∧ input = literal ++ rest := by
  constructor
  · intro parsed
    unfold tag at parsed
    split at parsed
    · rename_i starts
      cases parsed
      refine ⟨rfl, ?_⟩
      conv_lhs => rw [← List.take_append_drop literal.length input]
      rw [starts]
    · contradiction
  · rintro ⟨rfl, rfl⟩
    exact tag_append _ _

theorem tag_eq_none {literal : Input} :
    tag literal input = none ↔ ∀ rest, input ≠ literal ++ rest := by
  constructor
  · intro failed rest same
    rw [same, tag_append] at failed
    contradiction
  · intro differs
    cases parsed : tag literal input with
    | none => rfl
    | some result =>
        obtain ⟨rest, read⟩ := result
        exact (differs rest (tag_eq_some.mp parsed).2).elim

theorem map_eq_some {f : α → β} {value : β} :
    map parser f input = some (rest, value) ↔
      ∃ output, parser input = some (rest, output) ∧ f output = value := by
  unfold map
  cases parsed : parser input with
  | none => simp
  | some result =>
      obtain ⟨found, read⟩ := result
      simp only [Option.some.injEq, Prod.mk.injEq]
      constructor
      · rintro ⟨rfl, same⟩
        exact ⟨read, ⟨rfl, rfl⟩, same⟩
      · rintro ⟨_, ⟨rfl, rfl⟩, same⟩
        exact ⟨rfl, same⟩

theorem mapRes_eq_some {f : α → Option β} {value : β} :
    mapRes parser f input = some (rest, value) ↔
      ∃ output, parser input = some (rest, output) ∧ f output = some value := by
  unfold mapRes
  cases parsed : parser input with
  | none => simp
  | some result =>
      obtain ⟨found, read⟩ := result
      cases decoded : f read with
      | none => simp [decoded]
      | some other => simp [decoded, and_assoc]

theorem pair_eq_some {second : Parser β} {outputs : α × β} :
    pair parser second input = some (rest, outputs) ↔
      ∃ middle, parser input = some (middle, outputs.1) ∧
        second middle = some (rest, outputs.2) := by
  obtain ⟨left, right⟩ := outputs
  unfold pair
  cases parsed : parser input with
  | none => simp
  | some result =>
      obtain ⟨found, read⟩ := result
      cases following : second found with
      | none => simp [following]
      | some result =>
          obtain ⟨final, other⟩ := result
          simp only [following, Option.some.injEq, Prod.mk.injEq]
          constructor
          · rintro ⟨rfl, rfl, rfl⟩
            exact ⟨found, ⟨rfl, rfl⟩, following⟩
          · rintro ⟨_, ⟨rfl, rfl⟩, again⟩
            rw [following] at again
            cases again
            exact ⟨rfl, rfl, rfl⟩

theorem preceded_eq_some {second : Parser β} {value : β} :
    preceded parser second input = some (rest, value) ↔
      ∃ middle output, parser input = some (middle, output) ∧ second middle = some (rest, value) := by
  unfold preceded
  rw [map_eq_some]
  constructor
  · rintro ⟨⟨left, right⟩, parsed, rfl⟩
    obtain ⟨middle, first, following⟩ := pair_eq_some.mp parsed
    exact ⟨middle, left, first, following⟩
  · rintro ⟨middle, output, first, following⟩
    exact ⟨(output, value), pair_eq_some.mpr ⟨middle, first, following⟩, rfl⟩

theorem preceded_eq_none_of_first {second : Parser β} (failed : parser input = none) :
    preceded parser second input = none := by
  simp [preceded, map, pair, failed]

theorem delimited_eq_some {second : Parser β} {third : Parser γ} {value : β} :
    delimited parser second third input = some (rest, value) ↔
      ∃ middle inner left right, parser input = some (middle, left) ∧
        second middle = some (inner, value) ∧ third inner = some (rest, right) := by
  unfold delimited
  rw [map_eq_some]
  constructor
  · rintro ⟨⟨left, value, right⟩, parsed, rfl⟩
    obtain ⟨middle, first, following⟩ := pair_eq_some.mp parsed
    obtain ⟨inner, second, third⟩ := pair_eq_some.mp following
    exact ⟨middle, inner, left, right, first, second, third⟩
  · rintro ⟨middle, inner, left, right, first, second, third⟩
    exact ⟨(left, value, right),
      pair_eq_some.mpr ⟨middle, first, pair_eq_some.mpr ⟨inner, second, third⟩⟩, rfl⟩

theorem alt_of_first {second : Parser α} (parsed : parser input = some (rest, output)) :
    alt parser second input = some (rest, output) := by
  simp [alt, parsed]

theorem alt_of_second {second : Parser α} (failed : parser input = none) :
    alt parser second input = second input := by
  simp [alt, failed]

theorem alt_eq_some {second : Parser α} :
    alt parser second input = some (rest, output) ↔
      parser input = some (rest, output) ∨
        (parser input = none ∧ second input = some (rest, output)) := by
  unfold alt
  cases parsed : parser input with
  | none => simp
  | some result => simp

end Rules

/-! ## Repetition -/

/-- Every success reads at least one character from the front of the input. -/
def Consumes (parser : Parser α) : Prop :=
  ∀ input rest output, parser input = some (rest, output) →
    ∃ read, read ≠ [] ∧ input = read ++ rest

theorem Consumes.shorter {parser : Parser α} (consumes : Consumes parser)
    {input rest : Input} {output : α} (parsed : parser input = some (rest, output)) :
    rest.length < input.length := by
  obtain ⟨read, nonempty, rfl⟩ := consumes input rest output parsed
  have positive : 0 < read.length := List.length_pos_iff.mpr nonempty
  simp only [List.length_append]
  omega

/-- The runs of a repetition: read items until the first failure. -/
inductive Many (parser : Parser α) : Input → List α → Input → Prop
  | stop : parser input = none → Many parser input [] input
  | more : parser input = some (rest, output) → Many parser rest outputs final →
      Many parser input (output :: outputs) final

theorem many0Loop_sound {parser : Parser α} {fuel : Nat} {input rest : Input} {outputs : List α}
    (parsed : many0Loop parser fuel input = some (rest, outputs)) :
    Many parser input outputs rest := by
  induction fuel generalizing input outputs with
  | zero => simp [many0Loop] at parsed
  | succ fuel ih =>
      simp only [many0Loop] at parsed
      cases first : parser input with
      | none =>
          simp only [first, Option.some.injEq, Prod.mk.injEq] at parsed
          obtain ⟨rfl, rfl⟩ := parsed
          exact .stop first
      | some result =>
          obtain ⟨middle, output⟩ := result
          simp only [first] at parsed
          split at parsed
          · contradiction
          · cases following : many0Loop parser fuel middle with
            | none => simp [following] at parsed
            | some result =>
                obtain ⟨final, others⟩ := result
                simp only [following, Option.some.injEq, Prod.mk.injEq] at parsed
                obtain ⟨rfl, rfl⟩ := parsed
                exact .more first (ih following)

theorem many0Loop_complete {parser : Parser α} (consumes : Consumes parser)
    {input rest : Input} {outputs : List α} (run : Many parser input outputs rest) :
    ∀ fuel, input.length < fuel → many0Loop parser fuel input = some (rest, outputs) := by
  induction run with
  | stop failed =>
      intro fuel enough
      obtain ⟨fuel, rfl⟩ := Nat.exists_eq_succ_of_ne_zero (Nat.ne_of_gt (Nat.zero_lt_of_lt enough))
      simp [many0Loop, failed]
  | @more input middle output outputs final parsed _ ih =>
      intro fuel enough
      obtain ⟨fuel, rfl⟩ := Nat.exists_eq_succ_of_ne_zero (Nat.ne_of_gt (Nat.zero_lt_of_lt enough))
      have shorter := consumes.shorter parsed
      have different : middle ≠ input := by
        rintro rfl
        exact Nat.lt_irrefl _ shorter
      simp [many0Loop, parsed, different, ih fuel (by omega)]

/-- A repetition of a consuming parser never runs out of fuel: it returns what
its items return, up to the first failure. -/
theorem many0_eq_some {parser : Parser α} (consumes : Consumes parser)
    {input rest : Input} {outputs : List α} :
    many0 parser input = some (rest, outputs) ↔ Many parser input outputs rest :=
  ⟨many0Loop_sound, fun run => many0Loop_complete consumes run _ (Nat.lt_succ_self _)⟩

end Nom
