import Eafcc.CfgCenter.CfgIndex

namespace Eafcc.CfgCenter

open Eafcc.RuleEngine

/-! # Queries -/

inductive ViewMode where
  | overlaidView
  | allLinkedResView
deriving Repr, DecidableEq

structure CFGResult (Pri : Type) where
  reason : Option (IdxLinkItem Pri)
  value : KeyValuePair
deriving Repr, DecidableEq

variable {Pri : Type} [LinearOrder Pri]

/-- The closure that `fetch_res_by_overlaid_view` sorts the links with. -/
def compareLinks (a b : IdxLinkItem Pri) : Ordering :=
  if b.pri < a.pri then .lt
  else if a.pri = b.pri then if a.isNeg then .lt else .gt
  else .gt

/-- The library's sort. It is not stable, so what it does with ties is open. -/
abbrev SortUnstableBy (Pri : Type) :=
  (IdxLinkItem Pri → IdxLinkItem Pri → Ordering) → List (IdxLinkItem Pri) → List (IdxLinkItem Pri)

/-- The links of the rules that are true in the context, in the order of the
iteration. `none` is a panic of the evaluation. -/
def collectActLinks (store : MemStorage Pri) (whoami : MatchContext) :
    List IdxRuleItem → Option (List (IdxLinkItem Pri))
  | [] => some []
  | rule :: rules =>
      match rule.rule.eval whoami with
      | none => none
      | some active =>
          match collectActLinks store whoami rules with
          | none => none
          | some links =>
              if active then
                match store.indices.linkStor.getLinkByRulePath rule.absPath with
                | some found => some (found ++ links)
                | none => some links
              else some links

/-- The first pair with a key. -/
def firstPair (key : Str) (data : List KeyValuePair) : Option KeyValuePair :=
  data.find? fun kvItem => kvItem.key == key

/-- The labelled loop over the links: it ends at the first link whose resource
holds the key, and pushes an entry if that link is positive. -/
def nextKey (store : MemStorage Pri) (needExplain : Bool) (key : Str) :
    List (IdxLinkItem Pri) → Option (CFGResult Pri)
  | [] => none
  | link :: links =>
      match store.indices.resStor.getResByPath link.absResPath with
      | none => nextKey store needExplain key links
      | some res =>
          match firstPair key res.data with
          | none => nextKey store needExplain key links
          | some kvItem =>
              if link.isNeg then none
              else some { reason := if needExplain then some link else none, value := kvItem }

def fetchResByOverlaidView (sort : SortUnstableBy Pri) (store : MemStorage Pri) (keys : List Str)
    (links : List (IdxLinkItem Pri)) (needExplain : Bool) : List (CFGResult Pri) :=
  let links := sort compareLinks links
  keys.filterMap fun key => nextKey store needExplain key links

def fetchResByAllLinkedResView (store : MemStorage Pri) (keys : List Str)
    (links : List (IdxLinkItem Pri)) (needExplain : Bool) : List (CFGResult Pri) :=
  keys.flatMap fun key =>
    links.flatMap fun link =>
      match store.indices.resStor.getResByPath link.absResPath with
      | none => []
      | some res =>
          (res.data.filter fun kvItem => kvItem.key == key).map fun kvItem =>
            { reason := if needExplain then some link else none, value := kvItem }

/-- A query whose iteration over the rule map visits `rules`. `none` is a panic. -/
def Querier.get (sort : SortUnstableBy Pri) (store : MemStorage Pri) (rules : List IdxRuleItem)
    (whoami : MatchContext) (keys : List Str) (viewMode : ViewMode) (needExplain : Bool) :
    Option (List (CFGResult Pri)) :=
  match collectActLinks store whoami rules with
  | none => none
  | some actLinks =>
      if actLinks.length = 0 then some []
      else
        match viewMode with
        | .overlaidView => some (fetchResByOverlaidView sort store keys actLinks needExplain)
        | .allLinkedResView => some (fetchResByAllLinkedResView store keys actLinks needExplain)

end Eafcc.CfgCenter
