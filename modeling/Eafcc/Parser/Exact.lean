import Eafcc.Parser.Lexical

namespace Eafcc.Parser.Grammar

open Nom Eafcc.RuleEngine Eafcc.Parser.Rule

/-! # The parser accepts exactly its grammar

Each parser is compared with its nonterminal in both directions: a `Sound`
parser returns only trees of its nonterminal, a `Complete` one finds the tree
of every phrase whose right context does not continue it.
-/

/-- `phrase (separator phrase)*` -/
inductive ChainOf (separator : Token) (phrase : List Token → Condition → Prop) :
    List Token → List Condition → Prop
  | one {tokens : List Token} {tree : Condition} :
      phrase tokens tree → ChainOf separator phrase tokens [tree]
  | more {tokens others : List Token} {tree : Condition} {trees : List Condition} :
      phrase tokens tree → ChainOf separator phrase others trees →
      ChainOf separator phrase (tokens ++ separator :: others) (tree :: trees)

variable {unescape : Str → Option Str} {i r m : Str} {tokens : List Token} {tree : Condition}

def Sound (parser : Parser Condition) (phrase : List Token → Condition → Prop) : Prop :=
  ∀ i r tree, parser i = some (r, tree) → ∃ tokens, phrase tokens tree ∧ Lexes tokens i r

/-- On inputs shorter than `size` that begin with a token. -/
def Complete (size : Nat) (parser : Parser Condition) (phrase : List Token → Condition → Prop)
    (follow : Str → Prop) : Prop :=
  ∀ tokens tree i r, phrase tokens tree → Lexes tokens i r → follow r → i.length < size →
    parser (trim i) = some (r, tree)

/-! ## Leaves -/

theorem leafExpr_sound : Sound (leafExpr unescape) (DerivesAtom unescape) := by
  intro i r tree parsed
  obtain ⟨⟨name, op, value⟩, parts, rfl⟩ := map_eq_some.mp parsed
  obtain ⟨m₁, nameRead, others⟩ := pair_eq_some.mp parts
  obtain ⟨m₂, opRead, valueRead⟩ := pair_eq_some.mp others
  obtain ⟨x₁, nameParsed, rfl⟩ := ws_eq_some.mp nameRead
  obtain ⟨x₂, opParsed, rfl⟩ := ws_eq_some.mp opRead
  obtain ⟨x₃, valueParsed, rfl⟩ := ws_eq_some.mp valueRead
  obtain ⟨ident, nameSplit, -⟩ := identifier_eq_some.mp nameParsed
  obtain ⟨_, opTag, rfl⟩ := map_eq_some.mp opParsed
  obtain ⟨-, opSplit⟩ := tag_eq_some.mp opTag
  obtain ⟨text, textSplit, decoded⟩ := rhsLiteral_split valueParsed
  rw [trim_trim] at opSplit textSplit
  exact ⟨_, .leaf ident decoded, .cons nameSplit (.cons opSplit (.cons textSplit .nil))⟩

theorem leafExpr_complete {name text : Str} {value : Value} (ident : IsIdent name)
    (decoded : rhsLiteral unescape text = some ([], value))
    (lexed : Lexes [.ident name, .equals, .literal text] i r) :
    leafExpr unescape i = some (r, .leaf name .eq (some value)) := by
  obtain ⟨m₁, nameSplit, lexed⟩ := lexes_cons.mp lexed
  obtain ⟨m₂, opSplit, lexed⟩ := lexes_cons.mp lexed
  obtain ⟨m₃, textSplit, lexed⟩ := lexes_cons.mp lexed
  obtain rfl := lexes_nil.mp lexed
  simp only [Token.text] at nameSplit opSplit textSplit
  have stops : ∀ c rest, m₁ = c :: rest → isIdentRest c = false := by
    rintro c rest rfl
    by_cases space : isMultispace c = true
    · rcases isMultispace_iff.mp space with rfl | rfl | rfl | rfl <;> decide
    · rw [trim_of_head (by simpa using space)] at opSplit
      simp only [List.cons_append, List.cons.injEq] at opSplit
      rw [opSplit.1]
      decide
  have nameRead : ws identifier i = some (trim m₁, name) :=
    ws_eq_some.mpr ⟨m₁, identifier_eq_some.mpr ⟨ident, nameSplit, stops⟩, rfl⟩
  have opRead : ws leafBinaryOp (trim m₁) = some (trim m₂, .eq) := by
    refine ws_eq_some.mpr ⟨m₂, ?_, rfl⟩
    rw [trim_trim, opSplit]
    exact map_eq_some.mpr ⟨_, tag_append _ _, rfl⟩
  have valueRead : ws (rhsLiteral unescape) (trim m₂) = some (trim m₃, value) := by
    refine ws_eq_some.mpr ⟨m₃, ?_, rfl⟩
    rw [trim_trim, textSplit]
    exact rhsLiteral_append decoded
  refine map_eq_some.mpr ⟨(name, .eq, value), ?_, rfl⟩
  exact pair_eq_some.mpr ⟨_, nameRead, pair_eq_some.mpr ⟨_, opRead, valueRead⟩⟩

theorem leafExpr_trim (i : Str) : leafExpr unescape (trim i) = leafExpr unescape i := by
  simp only [leafExpr, Nom.map, pair, ws_trim]

/-! ## Parentheses and negation -/

section Operands

variable {inner : Parser Condition}

theorem leafExprOrParen_sound (sound : Sound inner (DerivesOr unescape)) :
    Sound (leafExprOrParen unescape inner) (DerivesAtom unescape) := by
  intro i r tree parsed
  rcases alt_eq_some.mp parsed with leaf | ⟨-, parens⟩
  · exact leafExpr_sound i r tree leaf
  · obtain ⟨m₁, m₂, _, _, opened, within, closed⟩ := delimited_eq_some.mp parens
    obtain ⟨-, x₁, openSplit, rfl⟩ := ws_tag_eq_some.mp opened
    obtain ⟨-, x₂, closeSplit, rfl⟩ := ws_tag_eq_some.mp closed
    obtain ⟨tokens, derived, lexed⟩ := sound _ _ _ within
    have closing : Lexes [.closeParen] m₂ (trim x₂) := .cons closeSplit .nil
    exact ⟨_, .paren derived, .cons openSplit ((lexes_trim.mp lexed).append closing)⟩

/-- Where an expression ends: at the end of the text or at a closing
parenthesis. -/
def Ends (r : Str) : Prop := r = [] ∨ ∃ text, r = ')' :: text

theorem leafExprOrParen_complete (size : Nat)
    (complete : Complete size inner (DerivesOr unescape) Ends) :
    Complete (size + 1) (leafExprOrParen unescape inner) (DerivesAtom unescape) (fun _ => True) := by
  intro tokens tree i r derived lexed _ small
  cases derived with
  | leaf ident decoded => exact alt_of_first (leafExpr_complete ident decoded (lexes_trim.mpr lexed))
  | @paren tokens _ derived =>
      obtain ⟨x₁, openSplit, lexed⟩ := lexes_cons.mp lexed
      obtain ⟨m, within, closing⟩ := lexed.split
      obtain ⟨x₂, closeSplit, closing⟩ := lexes_cons.mp closing
      obtain rfl := lexes_nil.mp closing
      have ends : Ends m := by
        rw [within.trimmed] at closeSplit
        exact .inr ⟨_, closeSplit⟩
      have shorter : x₁.length < size := by
        have total := trim_length_le i
        rw [openSplit] at total
        simp only [Token.text, List.length_append, List.length_cons, List.length_nil] at total
        omega
      have parsed := complete _ _ _ _ derived within ends shorter
      have notLeaf : leafExpr unescape (trim i) = none := by
        cases leaf : leafExpr unescape (trim i) with
        | none => rfl
        | some result =>
            obtain ⟨rest, found⟩ := result
            obtain ⟨⟨name, output⟩, parts, -⟩ := map_eq_some.mp leaf
            obtain ⟨_, spaced, -⟩ := pair_eq_some.mp parts
            obtain ⟨_, nameRead, -⟩ := ws_eq_some.mp spaced
            rw [trim_trim, openSplit] at nameRead
            simp only [Token.text, List.cons_append, List.nil_append, identifier_cons] at nameRead
            exact absurd nameRead (by simp [isIdentStart, isAlpha])
      refine (alt_of_second notLeaf).trans (delimited_eq_some.mpr ⟨trim x₁, m, ['('], [')'], ?_, parsed, ?_⟩)
      · exact ws_tag_eq_some.mpr ⟨rfl, x₁, by rw [trim_trim]; exact openSplit, rfl⟩
      · exact ws_tag_eq_some.mpr ⟨rfl, x₂, closeSplit, rfl⟩

theorem exprNot_sound (sound : Sound inner (DerivesOr unescape)) :
    Sound (exprNot unescape inner) (DerivesNot unescape) := by
  intro i r tree parsed
  rcases alt_eq_some.mp parsed with negated | ⟨-, plain⟩
  · obtain ⟨⟨_, operand⟩, parts, rfl⟩ := map_eq_some.mp negated
    obtain ⟨m, bang, operandRead⟩ := pair_eq_some.mp parts
    obtain ⟨-, rfl⟩ := tag_eq_some.mp bang
    obtain ⟨tokens, derived, lexed⟩ := leafExprOrParen_sound sound _ _ _ operandRead
    exact ⟨_, .bang derived, .cons (trim_of_head (by decide)) lexed⟩
  · obtain ⟨tokens, derived, lexed⟩ := leafExprOrParen_sound sound _ _ _ plain
    exact ⟨tokens, .plain derived, lexed⟩

theorem DerivesAtom.head_ne_bang (derived : DerivesAtom unescape tokens tree)
    (lexed : Lexes tokens i r) : ∀ text, trim i ≠ '!' :: text := by
  intro text same
  cases derived with
  | @leaf name text value ident decoded =>
      obtain ⟨m, starts, -⟩ := lexes_cons.mp lexed
      rw [same] at starts
      cases name with
      | nil => exact ident.elim
      | cons c rest =>
          simp only [Token.text, List.cons_append, List.cons.injEq] at starts
          obtain ⟨rfl, -⟩ := starts
          exact absurd ident.1 (by decide)
  | paren _ =>
      obtain ⟨m, starts, -⟩ := lexes_cons.mp lexed
      rw [same] at starts
      simp [Token.text] at starts

theorem leafExprOrParen_trim (i : Str) :
    leafExprOrParen unescape inner (trim i) = leafExprOrParen unescape inner i := by
  simp only [leafExprOrParen, alt, leafExpr_trim, delimited, Nom.map, pair, ws_trim]

theorem exprNot_complete (size : Nat) (complete : Complete size inner (DerivesOr unescape) Ends) :
    Complete (size + 1) (exprNot unescape inner) (DerivesNot unescape) (fun _ => True) := by
  intro tokens tree i r derived lexed follow small
  have operand := leafExprOrParen_complete size complete
  cases derived with
  | plain derived =>
      have notBang : tag ['!'] (trim i) = none := by
        apply tag_eq_none.mpr
        exact fun rest => derived.head_ne_bang lexed rest
      refine (alt_of_second ?_).trans (operand _ _ _ _ derived lexed trivial small)
      simp [Nom.map, pair, notBang]
  | bang derived =>
      obtain ⟨x, starts, lexed⟩ := lexes_cons.mp lexed
      have shorter : x.length < size + 1 := by
        have total := trim_length_le i
        rw [starts] at total
        simp only [Token.text, List.length_append, List.length_cons, List.length_nil] at total
        omega
      have parsed := operand _ _ _ _ derived lexed trivial shorter
      rw [leafExprOrParen_trim] at parsed
      apply alt_of_first
      rw [starts]
      exact map_eq_some.mpr ⟨(['!'], _), pair_eq_some.mpr ⟨x, tag_append ['!'] x, parsed⟩, rfl⟩

end Operands

/-! ## Chains of one operator -/

theorem flatten_eq_chainTree (build : List Condition → Condition) (first : Condition)
    (more : List Condition) : flatten build first more = chainTree build (first :: more) := by
  cases more <;> rfl

section Chains

variable {separator : Token} {phrase : List Token → Condition → Prop} {operand : Parser Condition}
  {build : List Condition → Condition}

theorem Lexes.suffix (lexed : Lexes tokens i r) : ∃ seen, i = seen ++ r := by
  induction lexed with
  | @nil i => exact ⟨i.takeWhile isMultispace, List.takeWhile_append_dropWhile.symm⟩
  | @cons token tokens i m r starts _ ih =>
      obtain ⟨seen, rfl⟩ := ih
      obtain ⟨spaces, -, same⟩ := exists_spaces_append_trim i
      exact ⟨spaces ++ token.text ++ seen, by rw [same, starts]; simp⟩

/-- One step of the repetition: the operator and the operand after it. -/
theorem chainStep_sound (sound : Sound operand phrase)
    (parsed : preceded (ws (tag separator.text)) (ws operand) i = some (r, tree)) :
    ∃ x tokens, trim i = separator.text ++ x ∧ phrase tokens tree ∧ Lexes tokens x r := by
  obtain ⟨_, _, operator, following⟩ := preceded_eq_some.mp parsed
  obtain ⟨-, x, split, rfl⟩ := ws_tag_eq_some.mp operator
  obtain ⟨m, found, rfl⟩ := ws_eq_some.mp following
  obtain ⟨tokens, derived, lexed⟩ := sound _ _ _ found
  rw [trim_trim] at lexed
  rw [lexed.trimmed]
  exact ⟨x, tokens, split, derived, lexes_trim.mp lexed⟩

theorem chainStep_consumes (solid : separator.Solid) (sound : Sound operand phrase) :
    Consumes (preceded (ws (tag separator.text)) (ws operand)) := by
  intro input rest tree parsed
  obtain ⟨x, tokens, split, -, lexed⟩ := chainStep_sound sound parsed
  have whole : Lexes (separator :: tokens) input rest := .cons split lexed
  obtain ⟨seen, same⟩ := whole.suffix
  refine ⟨seen, ?_, same⟩
  rintro rfl
  have shorter := whole.shorter solid
  rw [same, List.nil_append] at shorter
  exact Nat.lt_irrefl _ shorter

theorem chain_of_many (sound : Sound operand phrase) {more : List Condition}
    (run : Many (preceded (ws (tag separator.text)) (ws operand)) m more r)
    (derived : phrase tokens tree) (lexed : Lexes tokens i m) :
    ∃ all, ChainOf separator phrase all (tree :: more) ∧ Lexes all i r := by
  induction run generalizing i tokens tree with
  | stop _ => exact ⟨tokens, .one derived, lexed⟩
  | more parsed _ ih =>
      obtain ⟨x, others, split, next, nextLexed⟩ := chainStep_sound sound parsed
      obtain ⟨all, chain, chainLexed⟩ := ih next nextLexed
      exact ⟨_, .more derived chain, lexed.append (.cons split chainLexed)⟩

theorem exprChain_sound (separator : Token) (solid : separator.Solid) (sound : Sound operand phrase) :
    Sound (exprChain separator.text build operand)
      (fun tokens tree => ∃ trees, ChainOf separator phrase tokens trees ∧ tree = chainTree build trees) := by
  intro i r tree parsed
  obtain ⟨⟨first, more⟩, parts, rfl⟩ := map_eq_some.mp parsed
  obtain ⟨_, firstRead, repeated⟩ := pair_eq_some.mp parts
  obtain ⟨m, found, rfl⟩ := ws_eq_some.mp firstRead
  obtain ⟨tokens, derived, lexed⟩ := sound _ _ _ found
  rw [lexed.trimmed] at repeated
  have run := (many0_eq_some (chainStep_consumes solid sound)).mp repeated
  obtain ⟨all, chain, chainLexed⟩ := chain_of_many sound run derived (lexes_trim.mp lexed)
  exact ⟨all, ⟨_, chain, flatten_eq_chainTree build first more⟩, chainLexed⟩

/-- The right context of a chain: it ends the last operand and does not begin
with the operator. -/
def ChainEnds (separator : Token) (follow : Str → Prop) (r : Str) : Prop :=
  follow r ∧ ∀ text, r ≠ separator.text ++ text

theorem many_of_chain {size : Nat} {follow : Str → Prop}
    (complete : Complete size operand phrase follow)
    (continued : ∀ text, follow (separator.text ++ text)) {trees : List Condition}
    (chain : ChainOf separator phrase tokens trees) (lexed : Lexes tokens i r)
    (ends : ChainEnds separator follow r) (small : i.length < size) :
    ∃ first more m, trees = first :: more ∧ ws operand i = some (m, first) ∧
      Many (preceded (ws (tag separator.text)) (ws operand)) m more r := by
  induction chain generalizing i with
  | @one tokens tree derived =>
      have parsed := complete _ _ _ _ derived lexed ends.1 small
      refine ⟨tree, [], r, rfl, ws_eq_some.mpr ⟨r, parsed, lexed.trimmed.symm⟩, .stop ?_⟩
      apply preceded_eq_none_of_first
      apply ws_eq_none
      rw [lexed.trimmed]
      exact tag_eq_none.mpr ends.2
  | @more tokens others tree trees derived _ ih =>
      obtain ⟨m, firstLexed, restLexed⟩ := lexed.split
      obtain ⟨x, split, restLexed⟩ := lexes_cons.mp restLexed
      have starts : m = separator.text ++ x := by rw [← split, firstLexed.trimmed]
      have parsed := complete _ _ _ _ derived firstLexed (starts ▸ continued x) small
      have shorter : x.length < size := by
        have first := firstLexed.length_le
        rw [starts, List.length_append] at first
        omega
      obtain ⟨next, more, m', rfl, nextRead, run⟩ := ih restLexed shorter
      refine ⟨tree, next :: more, m, rfl, ws_eq_some.mpr ⟨m, parsed, firstLexed.trimmed.symm⟩, .more ?_ run⟩
      refine preceded_eq_some.mpr ⟨trim x, separator.text, ws_tag_eq_some.mpr ⟨rfl, x, split, rfl⟩, ?_⟩
      rw [ws_trim]
      exact nextRead

theorem exprChain_complete {size : Nat} {follow : Str → Prop} (separator : Token) (solid : separator.Solid)
    (sound : Sound operand phrase) (complete : Complete size operand phrase follow)
    (continued : ∀ text, follow (separator.text ++ text)) :
    Complete size (exprChain separator.text build operand)
      (fun tokens tree => ∃ trees, ChainOf separator phrase tokens trees ∧ tree = chainTree build trees)
      (ChainEnds separator follow) := by
  rintro tokens tree i r ⟨trees, chain, rfl⟩ lexed ends small
  obtain ⟨first, more, m, rfl, firstRead, run⟩ :=
    many_of_chain complete continued chain lexed ends small
  have repeated := (many0_eq_some (chainStep_consumes solid sound)).mpr run
  rw [← ws_trim] at firstRead
  refine map_eq_some.mpr ⟨(first, more), pair_eq_some.mpr ⟨m, firstRead, repeated⟩, ?_⟩
  exact flatten_eq_chainTree build first more

end Chains

/-! ## The grammar's chains -/

theorem ChainOf.mono {separator : Token} {narrow wide : List Token → Condition → Prop}
    (implies : ∀ tokens tree, narrow tokens tree → wide tokens tree)
    {trees : List Condition} (chain : ChainOf separator narrow tokens trees) : ChainOf separator wide tokens trees := by
  induction chain with
  | one first => exact .one (implies _ _ first)
  | more first _ ih => exact .more (implies _ _ first) ih

theorem chainOf_of_derivesNots {tokens : List Token} {trees : List Condition}
    (derived : DerivesNots unescape tokens trees) :
    ChainOf .ampAmp (DerivesNot unescape) tokens trees := by
  cases derived with
  | one first => exact .one first
  | more first rest => exact .more first (chainOf_of_derivesNots rest)

theorem derivesNots_of_chainOf (chain : ChainOf .ampAmp (DerivesNot unescape) tokens trees) :
    DerivesNots unescape tokens trees := by
  induction chain with
  | one first => exact .one first
  | more first _ ih => exact .more first ih

theorem chainOf_of_derivesAnds {tokens : List Token} {trees : List Condition}
    (derived : DerivesAnds unescape tokens trees) :
    ChainOf .barBar (DerivesAnd unescape) tokens trees := by
  cases derived with
  | one first => exact .one first
  | more first rest => exact .more first (chainOf_of_derivesAnds rest)

theorem derivesAnds_of_chainOf (chain : ChainOf .barBar (DerivesAnd unescape) tokens trees) :
    DerivesAnds unescape tokens trees := by
  induction chain with
  | one first => exact .one first
  | more first _ ih => exact .more first ih

theorem derivesAnd_iff : DerivesAnd unescape tokens tree ↔
    ∃ trees, ChainOf .ampAmp (DerivesNot unescape) tokens trees ∧ tree = chainTree .and trees := by
  constructor
  · rintro ⟨derived⟩
    exact ⟨_, chainOf_of_derivesNots derived, rfl⟩
  · rintro ⟨trees, chain, rfl⟩
    exact .chain (derivesNots_of_chainOf chain)

theorem derivesOr_iff : DerivesOr unescape tokens tree ↔
    ∃ trees, ChainOf .barBar (DerivesAnd unescape) tokens trees ∧ tree = chainTree .or trees := by
  constructor
  · rintro ⟨derived⟩
    exact ⟨_, chainOf_of_derivesAnds derived, rfl⟩
  · rintro ⟨trees, chain, rfl⟩
    exact .chain (derivesAnds_of_chainOf chain)

theorem solid_ampAmp : Token.ampAmp.Solid := ⟨'&', ['&'], rfl, by decide⟩
theorem solid_barBar : Token.barBar.Solid := ⟨'|', ['|'], rfl, by decide⟩

section Levels

variable {inner : Parser Condition}

theorem exprAnd_sound (sound : Sound inner (DerivesOr unescape)) :
    Sound (exprAnd unescape inner) (DerivesAnd unescape) := by
  intro i r tree parsed
  obtain ⟨tokens, chain, lexed⟩ :=
    exprChain_sound .ampAmp solid_ampAmp (exprNot_sound sound) i r tree parsed
  exact ⟨tokens, derivesAnd_iff.mpr chain, lexed⟩

theorem exprOr_sound (sound : Sound inner (DerivesOr unescape)) :
    Sound (exprOr unescape inner) (DerivesOr unescape) := by
  intro i r tree parsed
  obtain ⟨tokens, chain, lexed⟩ :=
    exprChain_sound .barBar solid_barBar (exprAnd_sound sound) i r tree parsed
  exact ⟨tokens, derivesOr_iff.mpr chain, lexed⟩

theorem exprAnd_complete (size : Nat) (sound : Sound inner (DerivesOr unescape))
    (complete : Complete size inner (DerivesOr unescape) Ends) :
    Complete (size + 1) (exprAnd unescape inner) (DerivesAnd unescape)
      (ChainEnds .ampAmp (fun _ => True)) := by
  intro tokens tree i r derived lexed ends small
  exact exprChain_complete .ampAmp solid_ampAmp (exprNot_sound sound)
    (exprNot_complete size complete) (fun _ => trivial) tokens tree i r
    (derivesAnd_iff.mp derived) lexed ends small

theorem exprOr_complete (size : Nat) (sound : Sound inner (DerivesOr unescape))
    (complete : Complete size inner (DerivesOr unescape) Ends) :
    Complete (size + 1) (exprOr unescape inner) (DerivesOr unescape) Ends := by
  intro tokens tree i r derived lexed ends small
  have notOperator : ∀ c, c ≠ ')' → ∀ text, r ≠ c :: text := by
    rintro c other text rfl
    rcases ends with empty | ⟨rest, same⟩
    · contradiction
    · exact other (List.cons.inj same).1
  refine exprChain_complete .barBar solid_barBar (exprAnd_sound sound)
    (exprAnd_complete size sound complete) (fun text => ⟨trivial, fun rest => ?_⟩) tokens tree i r
    (derivesOr_iff.mp derived) lexed ⟨⟨trivial, fun rest => ?_⟩, fun rest => ?_⟩ small
  · simp [Token.text]
  · exact notOperator '&' (by decide) _
  · exact notOperator '|' (by decide) _

end Levels

theorem exprOrDepth_sound (depth : Nat) :
    Sound (exprOrDepth unescape depth) (DerivesOr unescape) := by
  induction depth with
  | zero =>
      intro i r tree parsed
      contradiction
  | succ depth ih => exact exprOr_sound ih

theorem exprOrDepth_complete (unescape : Str → Option Str) (depth : Nat) :
    Complete depth (exprOrDepth unescape depth) (DerivesOr unescape) Ends := by
  induction depth with
  | zero =>
      intro tokens tree i r _ _ _ small
      exact (Nat.not_lt_zero _ small).elim
  | succ depth ih => exact exprOr_complete depth (exprOrDepth_sound depth) ih

/-! ## Tokens of a derivation -/

mutual
theorem DerivesOr.solid {tokens : List Token} {tree : Condition}
    (derived : DerivesOr unescape tokens tree) :
    ∀ token ∈ tokens, token.Solid := by
  cases derived with
  | chain derived => exact DerivesAnds.solid derived
termination_by 6 * tokens.length + 5
decreasing_by all_goals grind

theorem DerivesAnds.solid {tokens : List Token} {trees : List Condition}
    (derived : DerivesAnds unescape tokens trees) :
    ∀ token ∈ tokens, token.Solid := by
  cases derived with
  | one first => exact DerivesAnd.solid first
  | more first rest =>
      intro token member
      rcases List.mem_append.mp member with member | member
      · exact DerivesAnd.solid first token member
      · rcases List.mem_cons.mp member with rfl | member
        · exact solid_barBar
        · exact DerivesAnds.solid rest token member
termination_by 6 * tokens.length + 4
decreasing_by all_goals grind

theorem DerivesAnd.solid {tokens : List Token} {tree : Condition}
    (derived : DerivesAnd unescape tokens tree) :
    ∀ token ∈ tokens, token.Solid := by
  cases derived with
  | chain derived => exact DerivesNots.solid derived
termination_by 6 * tokens.length + 3
decreasing_by all_goals grind

theorem DerivesNots.solid {tokens : List Token} {trees : List Condition}
    (derived : DerivesNots unescape tokens trees) :
    ∀ token ∈ tokens, token.Solid := by
  cases derived with
  | one first => exact DerivesNot.solid first
  | more first rest =>
      intro token member
      rcases List.mem_append.mp member with member | member
      · exact DerivesNot.solid first token member
      · rcases List.mem_cons.mp member with rfl | member
        · exact solid_ampAmp
        · exact DerivesNots.solid rest token member
termination_by 6 * tokens.length + 2
decreasing_by all_goals grind

theorem DerivesNot.solid {tokens : List Token} {tree : Condition}
    (derived : DerivesNot unescape tokens tree) :
    ∀ token ∈ tokens, token.Solid := by
  cases derived with
  | plain derived => exact DerivesAtom.solid derived
  | bang derived =>
      intro token member
      rcases List.mem_cons.mp member with rfl | member
      · exact ⟨'!', [], rfl, by decide⟩
      · exact DerivesAtom.solid derived token member
termination_by 6 * tokens.length + 1
decreasing_by all_goals grind

theorem DerivesAtom.solid {tokens : List Token} {tree : Condition}
    (derived : DerivesAtom unescape tokens tree) :
    ∀ token ∈ tokens, token.Solid := by
  cases derived with
  | @leaf name text value ident decoded =>
      intro token member
      simp only [List.mem_cons, List.not_mem_nil, or_false] at member
      rcases member with rfl | rfl | rfl
      · cases name with
        | nil => exact ident.elim
        | cons c rest => exact ⟨c, rest, rfl, isMultispace_eq_false_of_isIdentStart ident.1⟩
      · exact ⟨'=', ['='], rfl, by decide⟩
      · obtain ⟨tail, rfl⟩ := rhsLiteral_starts_with_quote decoded
        exact ⟨'"', tail, rfl, by decide⟩
  | paren derived =>
      intro token member
      rcases List.mem_cons.mp member with rfl | member
      · exact ⟨'(', [], rfl, by decide⟩
      · rcases List.mem_append.mp member with member | member
        · exact DerivesOr.solid derived token member
        · obtain rfl := List.mem_singleton.mp member
          exact ⟨')', [], rfl, by decide⟩
termination_by 6 * tokens.length
decreasing_by all_goals grind
end

theorem doParse_of_derives {text : Str} (derived : Derives unescape text tree) :
    doParse unescape text = some ([], tree) := by
  obtain ⟨tokens, spelled, derived⟩ := derived
  have lexed := lexes_of_spells derived.solid spelled
  have parsed := exprOrDepth_complete unescape (text.length + 1) _ _ _ _ derived
    lexed (.inl rfl) (Nat.lt_succ_self _)
  have trimmed : exprOrDepth unescape (text.length + 1) (trim text) =
      exprOrDepth unescape (text.length + 1) text := by
    simp only [exprOrDepth, exprOr, exprChain, Nom.map, pair, ws_trim]
  rw [trimmed] at parsed
  exact parsed

theorem derives_of_doParse {text : Str} (parsed : doParse unescape text = some ([], tree)) :
    Derives unescape text tree := by
  obtain ⟨tokens, derived, lexed⟩ := exprOrDepth_sound _ _ _ _ parsed
  exact ⟨tokens, spells_of_lexes lexed rfl, derived⟩

/-- The rule parser accepts exactly the texts of the grammar, with the tree of
the derivation, and a text has at most one tree. -/
theorem doParse_accepts_grammar (unescape : Str → Option Str) (text : Str) :
    (∀ tree, doParse unescape text = some ([], tree) ↔ Derives unescape text tree) ∧
    (∀ left right, Derives unescape text left → Derives unescape text right → left = right) := by
  refine ⟨fun tree => ⟨derives_of_doParse, doParse_of_derives⟩, fun left right first second => ?_⟩
  have same := (doParse_of_derives first).symm.trans (doParse_of_derives second)
  exact (Prod.mk.inj (Option.some.inj same)).2

end Eafcc.Parser.Grammar
