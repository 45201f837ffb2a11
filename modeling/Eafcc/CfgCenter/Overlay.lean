import Eafcc.CfgCenter.Querier
import Eafcc.Library.Ranked

namespace Eafcc.CfgCenter

open Eafcc.RuleEngine

/-! # What the overlaid view returns -/

variable {Pri : Type}

section Sorting

variable [LinearOrder Pri]

/-- What is assumed of the library's sort: the links by decreasing priority,
negative before positive among equal priorities. -/
def SortsByPriority (sort : SortUnstableBy Pri) : Prop :=
  ∀ links, (sort compareLinks links).Perm links ∧
    (sort compareLinks links).Pairwise (Ranked.Before IdxLinkItem.pri IdxLinkItem.isNeg)

theorem before_iff_compareLinks (a b : IdxLinkItem Pri) :
    (compareLinks a b = .lt ∨ compareLinks b a = .gt) ↔
      Ranked.Before IdxLinkItem.pri IdxLinkItem.isNeg a b := by
  unfold compareLinks Ranked.Before
  rcases lt_trichotomy a.pri b.pri with lower | same | higher
  · simp [lower, lower.not_gt, lower.ne]
  · cases a.isNeg <;> cases b.isNeg <;> simp [same]
  · simp [higher]

/-- A sort that puts an element before another unless the comparison is only
for the opposite order. -/
def sortLinks : SortUnstableBy Pri := fun compare links =>
  links.insertionSort fun a b => compare a b = .lt ∨ compare b a = .gt

theorem sortsByPriority_sortLinks : SortsByPriority (sortLinks : SortUnstableBy Pri) := by
  intro links
  exact ⟨List.perm_insertionSort _ links, Ranked.insertionSort_arranged before_iff_compareLinks links⟩

end Sorting

/-- The link is filed under the path of a stored rule that is true in the
context. -/
def Active (store : MemStorage Pri) (whoami : MatchContext) (link : IdxLinkItem Pri) : Prop :=
  ∃ path item links, store.indices.ruleStor.storage.lookup path = some item ∧
    item.rule.eval whoami = some true ∧
    store.indices.linkStor.getLinkByRulePath path = some links ∧ link ∈ links

/-- The first pair with a key in the resource that a link points to. -/
def heldPair (store : MemStorage Pri) (key : Str) (link : IdxLinkItem Pri) : Option KeyValuePair :=
  (store.indices.resStor.getResByPath link.absResPath).bind fun res => firstPair key res.data

/-- An active link that holds the key, of the greatest priority of those. -/
def Topmost [LinearOrder Pri] (store : MemStorage Pri) (whoami : MatchContext) (key : Str) : IdxLinkItem Pri → Prop :=
  Ranked.Top IdxLinkItem.pri fun link => Active store whoami link ∧ heldPair store key link ≠ none

/-- What the overlaid view has to return for a key. -/
inductive OverlayEntry [LinearOrder Pri] (store : MemStorage Pri) (whoami : MatchContext) (needExplain : Bool)
    (key : Str) : Option (CFGResult Pri) → Prop
  | shown {link : IdxLinkItem Pri} {pair : KeyValuePair} :
      Topmost store whoami key link → heldPair store key link = some pair →
      (∀ other, Topmost store whoami key other → other.isNeg = false) →
      OverlayEntry store whoami needExplain key
        (some { reason := if needExplain then some link else none, value := pair })
  | masked {link : IdxLinkItem Pri} :
      Topmost store whoami key link → link.isNeg = true →
      OverlayEntry store whoami needExplain key none
  | absent :
      (∀ link, Active store whoami link → heldPair store key link = none) →
      OverlayEntry store whoami needExplain key none

variable {store : MemStorage Pri} {whoami : MatchContext} {rules : List IdxRuleItem}
  {links : List (IdxLinkItem Pri)} {key : Str} {needExplain : Bool}

theorem nextKey_eq_find : nextKey store needExplain key links =
    match links.find? (fun link => (heldPair store key link).isSome) with
    | none => none
    | some link =>
        if link.isNeg then none
        else (heldPair store key link).map fun pair =>
          { reason := if needExplain then some link else none, value := pair } := by
  induction links with
  | nil => rfl
  | cons link links ih =>
      unfold nextKey
      cases stored : store.indices.resStor.getResByPath link.absResPath with
      | none =>
          have missing : heldPair store key link = none := by simp [heldPair, stored]
          rw [List.find?_cons_of_neg (by simp [missing])]
          exact ih
      | some res =>
          cases pair : firstPair key res.data with
          | none =>
              have missing : heldPair store key link = none := by simp [heldPair, stored, pair]
              rw [List.find?_cons_of_neg (by simp [missing])]
              simpa [pair] using ih
          | some kvItem =>
              have held : heldPair store key link = some kvItem := by simp [heldPair, stored, pair]
              rw [List.find?_cons_of_pos (by simp [held])]
              simp [pair, held]

theorem collectActLinks_eq_none : collectActLinks store whoami rules = none ↔
    ∃ rule ∈ rules, rule.rule.eval whoami = none := by
  induction rules with
  | nil => simp [collectActLinks]
  | cons rule rules ih =>
      unfold collectActLinks
      cases evaluated : rule.rule.eval whoami with
      | none => simp [evaluated]
      | some active =>
          cases rest : collectActLinks store whoami rules with
          | none =>
              obtain ⟨panicking, member, panics⟩ := ih.mp rest
              exact ⟨fun _ => ⟨panicking, by simp [member], panics⟩, fun _ => rfl⟩
          | some links =>
              have quiet : ¬ ∃ rule ∈ rules, rule.rule.eval whoami = none := by
                rw [← ih, rest]
                simp
              simp only [List.mem_cons, exists_eq_or_imp, evaluated, reduceCtorEq, false_or]
              simp only [quiet, iff_false]
              cases active <;>
                cases store.indices.linkStor.getLinkByRulePath rule.absPath <;> simp

theorem mem_collectActLinks (collected : collectActLinks store whoami rules = some links)
    (link : IdxLinkItem Pri) :
    link ∈ links ↔ ∃ rule ∈ rules, rule.rule.eval whoami = some true ∧
      ∃ filed, store.indices.linkStor.getLinkByRulePath rule.absPath = some filed ∧ link ∈ filed := by
  induction rules generalizing links with
  | nil =>
      cases collected
      simp
  | cons rule rules ih =>
      unfold collectActLinks at collected
      cases evaluated : rule.rule.eval whoami with
      | none => simp [evaluated] at collected
      | some active =>
          cases rest : collectActLinks store whoami rules with
          | none => simp [evaluated, rest] at collected
          | some others =>
              have later := ih rest
              simp only [evaluated, rest] at collected
              cases active with
              | false =>
                  cases collected
                  simp [evaluated, later]
              | true =>
                  cases found : store.indices.linkStor.getLinkByRulePath rule.absPath with
                  | none =>
                      simp only [found, if_true] at collected
                      cases collected
                      simp [found, later]
                  | some filed =>
                      simp only [found, if_true] at collected
                      cases collected
                      simp [found, evaluated, later]

theorem RuleIndex.Iteration.mem_iff {index : RuleIndex} (order : index.Iteration rules)
    (rule : IdxRuleItem) :
    rule ∈ rules ↔ ∃ path, index.storage.lookup path = some rule := by
  rw [← Multiset.mem_coe, order, Multiset.mem_map]
  constructor
  · rintro ⟨⟨path, item⟩, member, rfl⟩
    exact ⟨path, Finmap.lookup_eq_some_iff.mpr member⟩
  · rintro ⟨path, found⟩
    exact ⟨⟨path, rule⟩, Finmap.lookup_eq_some_iff.mp found, rfl⟩

theorem mem_collectActLinks_iff_active (order : store.indices.ruleStor.Iteration rules)
    (collected : collectActLinks store whoami rules = some links) (link : IdxLinkItem Pri) :
    link ∈ links ↔ Active store whoami link := by
  rw [mem_collectActLinks collected link]
  constructor
  · rintro ⟨rule, member, holds, filed, found, linked⟩
    obtain ⟨path, stored⟩ := (order.mem_iff rule).mp member
    rw [store.indices.ruleStor.filed path rule stored] at found
    exact ⟨path, rule, filed, stored, holds, found, linked⟩
  · rintro ⟨path, rule, filed, stored, holds, found, linked⟩
    have member := (order.mem_iff rule).mpr ⟨path, stored⟩
    rw [← store.indices.ruleStor.filed path rule stored] at found
    exact ⟨rule, member, holds, filed, found, linked⟩

/-- Whether the iteration panics depends on the stored rules only. -/
theorem collectActLinks_panics_iff (order : store.indices.ruleStor.Iteration rules) :
    collectActLinks store whoami rules = none ↔
      ∃ path item, store.indices.ruleStor.storage.lookup path = some item ∧
        item.rule.eval whoami = none := by
  rw [collectActLinks_eq_none]
  constructor
  · rintro ⟨rule, member, panics⟩
    obtain ⟨path, stored⟩ := (order.mem_iff rule).mp member
    exact ⟨path, rule, stored, panics⟩
  · rintro ⟨path, item, stored, panics⟩
    exact ⟨item, (order.mem_iff item).mpr ⟨path, stored⟩, panics⟩

/-- No order of the rules panics where one does not. -/
theorem collectActLinks_reordered {rules' : List IdxRuleItem} (order : store.indices.ruleStor.Iteration rules)
    (order' : store.indices.ruleStor.Iteration rules') (collected : collectActLinks store whoami rules = some links) :
    ∃ links', collectActLinks store whoami rules' = some links' := by
  refine Option.ne_none_iff_exists'.mp fun panics => ?_
  rw [collectActLinks_panics_iff order', ← collectActLinks_panics_iff order, collected] at panics
  cases panics

variable [LinearOrder Pri]

/-- The labelled loop over arranged links finds what the key has to return. -/
theorem nextKey_overlayEntry
    (arranged : links.Pairwise (Ranked.Before IdxLinkItem.pri IdxLinkItem.isNeg))
    (active : ∀ link, link ∈ links ↔ Active store whoami link) :
    OverlayEntry store whoami needExplain key (nextKey store needExplain key links) := by
  have candidates : ∀ link, (link ∈ links ∧ (heldPair store key link).isSome = true) ↔
      (Active store whoami link ∧ heldPair store key link ≠ none) := by
    intro link
    rw [active, Option.isSome_iff_ne_none]
  rw [nextKey_eq_find]
  cases found : links.find? (fun link => (heldPair store key link).isSome) with
  | none =>
      apply OverlayEntry.absent
      intro link isActive
      have missing := List.find?_eq_none.mp found link ((active link).mpr isActive)
      simpa using missing
  | some link =>
      obtain ⟨top, unmasked⟩ := Ranked.top_of_find arranged found
      have topmost : Topmost store whoami key link := (Ranked.top_congr candidates).mp top
      obtain ⟨pair, held⟩ := Option.isSome_iff_exists.mp top.1.2
      simp only [held, Option.map_some]
      cases negative : link.isNeg with
      | true => exact .masked topmost negative
      | false =>
          refine .shown topmost held fun other otherTop => ?_
          exact unmasked negative other ((Ranked.top_congr candidates).mpr otherTop)

theorem forall₂_reduceOption {α β : Type} {R : α → Option β → Prop} {f : α → Option β} {keys : List α}
    (each : ∀ key ∈ keys, R key (f key)) :
    ∃ entries, List.Forall₂ R keys entries ∧ keys.filterMap f = entries.reduceOption := by
  refine ⟨keys.map f, ?_, ?_⟩
  · rw [List.forall₂_map_right_iff]
    exact List.forall₂_same.mpr each
  · rw [List.reduceOption, List.filterMap_map]
    rfl

theorem get_eq_none (order : store.indices.ruleStor.Iteration rules) {sort : SortUnstableBy Pri}
    {keys : List Str} {viewMode : ViewMode} :
    Querier.get sort store rules whoami keys viewMode needExplain = none ↔
      ∃ path item, store.indices.ruleStor.storage.lookup path = some item ∧
        item.rule.eval whoami = none := by
  rw [← collectActLinks_panics_iff order]
  unfold Querier.get
  cases collectActLinks store whoami rules with
  | none => simp
  | some links =>
      simp only [reduceCtorEq, iff_false]
      split
      · simp
      · cases viewMode <;> simp

/-- A query in the overlaid view looks each key up in one arrangement of the
active links. -/
theorem get_eq_filterMap {sort : SortUnstableBy Pri} (sorts : SortsByPriority sort)
    (order : store.indices.ruleStor.Iteration rules) {keys : List Str} {results : List (CFGResult Pri)}
    (returned : Querier.get sort store rules whoami keys .overlaidView needExplain = some results) :
    ∃ links, links.Pairwise (Ranked.Before IdxLinkItem.pri IdxLinkItem.isNeg) ∧
      (∀ link, link ∈ links ↔ Active store whoami link) ∧
      results = keys.filterMap fun key => nextKey store needExplain key links := by
  unfold Querier.get at returned
  cases collected : collectActLinks store whoami rules with
  | none => simp [collected] at returned
  | some links =>
      have active := mem_collectActLinks_iff_active order collected
      simp only [collected] at returned
      split at returned
      · rename_i empty
        cases returned
        refine ⟨[], .nil, ?_, by simp [nextKey]⟩
        rwa [List.length_eq_zero_iff.mp empty] at active
      · cases returned
        obtain ⟨perm, arranged⟩ := sorts links
        exact ⟨sort compareLinks links, arranged, fun link => perm.mem_iff.trans (active link), rfl⟩

/-- A query in the overlaid view panics only where the condition of a stored rule
does, and otherwise returns for each requested key in turn the entry of the
topmost active links that hold it. -/
theorem get_overlaidView (sort : SortUnstableBy Pri) (sorts : SortsByPriority sort)
    (store : MemStorage Pri) (rules : List IdxRuleItem)
    (order : store.indices.ruleStor.Iteration rules) (whoami : MatchContext) (keys : List Str)
    (needExplain : Bool) :
    (Querier.get sort store rules whoami keys .overlaidView needExplain = none ↔
      ∃ path item, store.indices.ruleStor.storage.lookup path = some item ∧
        item.rule.eval whoami = none) ∧
    ∀ results, Querier.get sort store rules whoami keys .overlaidView needExplain = some results →
      ∃ entries, List.Forall₂ (OverlayEntry store whoami needExplain) keys entries ∧
        results = entries.reduceOption := by
  refine ⟨get_eq_none order, fun results returned => ?_⟩
  obtain ⟨links, arranged, active, rfl⟩ := get_eq_filterMap sorts order returned
  exact forall₂_reduceOption fun key _ => nextKey_overlayEntry arranged active

def sampleItem (pri : Nat) (isNeg : Bool) (res link : Char) : IdxLinkItem Nat :=
  { pri, isNeg, rulePath := "path:/r".toList, absResPath := [res], linkPath := [link] }

def samplePairOf (key value : Char) : KeyValuePair := { contentType := [], key := [key], value := [value] }

/-- One rule that holds in every context. For `k` two links tie above a negative one, `x` is
masked above a positive one, and `y` has one link. -/
def sampleStore : MemStorage Nat where
  version := { name := [], id := .empty }
  indices :=
    { ruleStor := RuleIndex.empty.addRule ['r'] { metadata := ⟨[], []⟩, spec := ⟨.and []⟩ }
      linkStor := ⟨Finmap.singleton ['r'] [sampleItem 1 true 's' 'a', sampleItem 2 false 's' 'b',
        sampleItem 2 false 't' 'c', sampleItem 2 true 'u' 'd', sampleItem 1 false 'w' 'e']⟩
      resStor := ⟨(((Finmap.singleton ['s'] ⟨[samplePairOf 'k' 'v'], ['s']⟩).insert ['t']
        ⟨[samplePairOf 'k' 'w'], ['t']⟩).insert ['u'] ⟨[samplePairOf 'x' 'v'], ['u']⟩).insert ['w']
        ⟨[samplePairOf 'x' 'w', samplePairOf 'y' 'v'], ['w']⟩⟩ }

theorem sampleStore_iteration : sampleStore.indices.ruleStor.Iteration [⟨.and [], ['r']⟩] := by
  simp only [sampleStore, RuleIndex.Iteration, RuleIndex.addRule, RuleIndex.empty]
  rw [Finmap.entries_insert_of_notMem Finmap.notMem_empty]
  rfl

theorem get_overlaidView_sample : ∃ entries,
    List.Forall₂ (OverlayEntry sampleStore ∅ false) [['k'], ['x'], ['y'], ['z'], ['k']] entries ∧
    [⟨none, samplePairOf 'k' 'v'⟩, ⟨none, samplePairOf 'y' 'v'⟩, ⟨none, samplePairOf 'k' 'v'⟩] =
      entries.reduceOption := by
  have returned := get_overlaidView sortLinks sortsByPriority_sortLinks sampleStore _
    sampleStore_iteration ∅ [['k'], ['x'], ['y'], ['z'], ['k']] false
  exact returned.2 _ rfl

end Eafcc.CfgCenter
