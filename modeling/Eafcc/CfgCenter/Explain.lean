import Eafcc.CfgCenter.AllLinked

namespace Eafcc.CfgCenter

open Eafcc.RuleEngine Eafcc.Model Eafcc.Storage Eafcc.Ffi

/-! # What a reason says -/

variable {Pri : Type} {version : VersionItem} {index index' : CFGIndex Pri} {store : MemStorage Pri}
  {whoami : MatchContext} {link : IdxLinkItem Pri} {key : Str} {needExplain : Bool}

/-! ## Indices that are built object by object -/

/-- A call that adds an object to the index. -/
inductive Addition (Pri : Type) where
  | rule (path : Str) (ruleObj : Rule)
  | link (path : Str) (linkObj : Link Pri)
  | res (path : Str) (resObj : Res)

def CFGIndex.add (index : CFGIndex Pri) : Addition Pri → Option (CFGIndex Pri)
  | .rule path ruleObj => index.addRule path ruleObj
  | .link path linkObj => index.addLink path linkObj
  | .res path resObj => index.addRes path resObj

/-- The index after some calls, `none` where one of them panics. -/
def CFGIndex.build (additions : List (Addition Pri)) : Option (CFGIndex Pri) :=
  additions.foldlM CFGIndex.add .empty

/-- The item comes from a link among the additions. -/
def ComesFrom (additions : List (Addition Pri)) (link : IdxLinkItem Pri) : Prop :=
  ∃ linkObj, .link link.linkPath linkObj ∈ additions ∧ linkObj.spec.rule = link.rulePath ∧
    linkObj.spec.pri = link.pri ∧ linkObj.spec.isNeg = link.isNeg

/-- Every item comes from an added link and is filed under the path that its own rule
reference names. -/
def Traced (additions : List (Addition Pri)) (index : CFGIndex Pri) : Prop :=
  ∀ rulePath, ∀ link ∈ itemsAt index.linkStor rulePath,
    removePathTypePrefix link.rulePath = some rulePath ∧ ComesFrom additions link

variable {additions : List (Addition Pri)}

theorem Traced.add (traced : Traced additions index) {addition : Addition Pri}
    (added : index.add addition = some index') : Traced (additions ++ [addition]) index' := by
  have earlier : ∀ link, ComesFrom additions link → ComesFrom (additions ++ [addition]) link := by
    intro link comes
    obtain ⟨linkObj, member, same⟩ := comes
    exact ⟨linkObj, List.mem_append_left _ member, same⟩
  intro rulePath link member
  cases addition with
  | rule path ruleObj =>
      cases added
      obtain ⟨filed, comes⟩ := traced rulePath link member
      exact ⟨filed, earlier link comes⟩
  | res path resObj =>
      cases added
      obtain ⟨filed, comes⟩ := traced rulePath link member
      exact ⟨filed, earlier link comes⟩
  | link path linkObj =>
      obtain ⟨linkStor, linked, rfl⟩ := Option.map_eq_some_iff.mp added
      rw [(addLink_eq_some linked).2, List.mem_append] at member
      rcases member with member | member
      · obtain ⟨filed, comes⟩ := traced rulePath link member
        exact ⟨filed, earlier link comes⟩
      · split at member
        · rename_i filed
          obtain ⟨resPath, -, rfl⟩ := List.mem_map.mp member
          exact ⟨filed, linkObj, by simp, rfl, rfl, rfl⟩
        · cases member

theorem traced_of_build (built : CFGIndex.build additions = some index) : Traced additions index := by
  induction additions using List.reverseRecOn generalizing index with
  | nil =>
      cases built
      intro rulePath link member
      cases member
  | append_singleton additions addition ih =>
      simp only [CFGIndex.build, List.foldlM_append, Option.bind_eq_bind, Option.bind_eq_some_iff] at built
      obtain ⟨before, earlier, last⟩ := built
      simp only [List.foldlM_cons, List.foldlM_nil, Option.bind_eq_bind, Option.bind_eq_some_iff,
        Option.pure_def] at last
      obtain ⟨after, added, same⟩ := last
      cases same
      exact (ih earlier).add added

/-! ## The reasons of a query -/

/-- The item says why a pair applies in a context: its rule is stored and true there,
it comes from an added link, and the resource that it points to holds the pair. -/
structure Explains (additions : List (Addition Pri)) (index : CFGIndex Pri) (whoami : MatchContext)
    (pair : KeyValuePair) (link : IdxLinkItem Pri) : Prop where
  rule : ∃ path item, removePathTypePrefix link.rulePath = some path ∧
    index.ruleStor.storage.lookup path = some item ∧ item.rule.eval whoami = some true
  added : ComesFrom additions link
  res : ∃ res, index.resStor.getResByPath link.absResPath = some res ∧ pair ∈ res.data

theorem Traced.explains (traced : Traced additions index)
    (active : Active (storeOf version index) whoami link) {pair : KeyValuePair}
    (holds : pair ∈ pairsAt (storeOf version index) key link) :
    Explains additions index whoami pair link := by
  obtain ⟨path, item, stored, active, listed⟩ := (active_iff_itemsAt link).mp active
  obtain ⟨filed, comes⟩ := traced path link listed
  refine ⟨⟨path, item, filed, stored, active⟩, comes, ?_⟩
  unfold pairsAt at holds
  split at holds
  · cases holds
  · rename_i res found
    exact ⟨res, found, (List.mem_filter.mp holds).1⟩

theorem mem_pairsAt_of_heldPair {pair : KeyValuePair} (held : heldPair store key link = some pair) :
    pair ∈ pairsAt store key link := by
  obtain ⟨res, found, first⟩ := Option.bind_eq_some_iff.mp held
  have same := List.find?_some first
  simp only [pairsAt, found]
  exact List.mem_filter.mpr ⟨List.mem_of_find?_eq_some first, same⟩

theorem values_nextKey (store : MemStorage Pri) (key : Str) (links : List (IdxLinkItem Pri)) :
    (nextKey store true key links).map CFGResult.value =
      (nextKey store false key links).map CFGResult.value := by
  rw [nextKey_eq_find, nextKey_eq_find]
  split
  · rfl
  · rename_i link found
    cases link.isNeg with
    | true => rfl
    | false => cases heldPair store key link <;> rfl

variable [LinearOrder Pri]

/-- No active link of greater priority holds the key. -/
def Outranks (store : MemStorage Pri) (whoami : MatchContext) (key : Str) (link : IdxLinkItem Pri) : Prop :=
  ∀ other, Active store whoami other → heldPair store key other ≠ none → other.pri ≤ link.pri

theorem values_entriesOf (sort : SortUnstableBy Pri) (store : MemStorage Pri)
    (links : List (IdxLinkItem Pri)) (viewMode : ViewMode) (key : Str) :
    (entriesOf sort store links viewMode true key).map CFGResult.value =
      (entriesOf sort store links viewMode false key).map CFGResult.value := by
  unfold entriesOf
  split
  · rfl
  · cases viewMode with
    | overlaidView =>
        have same := values_nextKey store key (sort compareLinks links)
        simp only [← Option.toList_map, same]
    | allLinkedResView =>
        simp only [fetchResByAllLinkedResView_key, List.map_flatMap, List.map_map]
        rfl

theorem mem_entriesOf_allLinked {sort : SortUnstableBy Pri} {links : List (IdxLinkItem Pri)}
    {result : CFGResult Pri} (member : result ∈ entriesOf sort store links .allLinkedResView needExplain key) :
    ∃ link ∈ links, ∃ kvItem ∈ pairsAt store key link, result = linkedEntry needExplain link kvItem := by
  rw [entriesOf_linked, List.mem_flatMap] at member
  obtain ⟨link, listed, member⟩ := member
  obtain ⟨kvItem, held, rfl⟩ := List.mem_map.mp member
  exact ⟨link, listed, kvItem, held, rfl⟩

theorem mem_entriesOf_overlaid {sort : SortUnstableBy Pri} (sorts : SortsByPriority sort)
    {links : List (IdxLinkItem Pri)} (active : ∀ link, link ∈ links ↔ Active store whoami link)
    {result : CFGResult Pri} (member : result ∈ entriesOf sort store links .overlaidView needExplain key) :
    ∃ link ∈ links, ∃ kvItem ∈ pairsAt store key link, result = linkedEntry needExplain link kvItem ∧
      link.isNeg = false ∧ Outranks store whoami key link := by
  unfold entriesOf at member
  split at member
  · cases member
  · obtain ⟨perm, arranged⟩ := sorts links
    have sorted : ∀ link, link ∈ sort compareLinks links ↔ Active store whoami link :=
      fun link => perm.mem_iff.trans (active link)
    have entry : OverlayEntry store whoami needExplain key
        (nextKey store needExplain key (sort compareLinks links)) := nextKey_overlayEntry arranged sorted
    rw [Option.mem_toList.mp member] at entry
    cases entry with
    | @shown link kvItem topmost held positive =>
        refine ⟨link, (active link).mpr topmost.1.1, kvItem, mem_pairsAt_of_heldPair held, rfl,
          positive link topmost, fun other isActive holds => ?_⟩
        exact topmost.2 other ⟨isActive, holds⟩

/-- With explanations every entry has a reason, which explains its value and in the
overlaid view is positive and outranked by no active link that holds the key. Without
explanations there are no reasons and the values are the same. -/
theorem get_explained (additions : List (Addition Pri)) (index : CFGIndex Pri)
    (built : CFGIndex.build additions = some index) (version : VersionItem)
    (sort : SortUnstableBy Pri) (sorts : SortsByPriority sort) (rules : List IdxRuleItem)
    (order : index.ruleStor.Iteration rules) (whoami : MatchContext) (keys : List Str)
    (viewMode : ViewMode) :
    (∀ results, Querier.get sort (storeOf version index) rules whoami keys viewMode true = some results →
      ∀ entry ∈ results, ∃ link, entry.reason = some link ∧
        Explains additions index whoami entry.value link ∧
        (viewMode = .overlaidView →
          link.isNeg = false ∧ Outranks (storeOf version index) whoami entry.value.key link)) ∧
    (∀ results, Querier.get sort (storeOf version index) rules whoami keys viewMode false = some results →
      ∀ entry ∈ results, entry.reason = none) ∧
    (Querier.get sort (storeOf version index) rules whoami keys viewMode true).map
        (List.map CFGResult.value) =
      (Querier.get sort (storeOf version index) rules whoami keys viewMode false).map
        (List.map CFGResult.value) := by
  have traced := traced_of_build built
  simp only [get_eq]
  cases collected : collectActLinks (storeOf version index) whoami rules with
  | none => simp
  | some links =>
      have active := mem_collectActLinks_iff_active order collected
      simp only [Option.map_some, Option.some.injEq, forall_eq', List.mem_flatMap]
      refine ⟨?_, ?_, ?_⟩
      · intro entry member
        obtain ⟨key, -, member⟩ := member
        cases viewMode with
        | overlaidView =>
            obtain ⟨link, listed, kvItem, holds, rfl, positive, top⟩ := mem_entriesOf_overlaid sorts active member
            have same : kvItem.key = key := entriesOf_key _ _ member
            refine ⟨link, rfl, traced.explains ((active link).mp listed) holds, fun _ => ⟨positive, ?_⟩⟩
            simpa only [linkedEntry, same] using top
        | allLinkedResView =>
            obtain ⟨link, listed, kvItem, holds, rfl⟩ := mem_entriesOf_allLinked member
            exact ⟨link, rfl, traced.explains ((active link).mp listed) holds, fun other => by cases other⟩
      · intro entry member
        obtain ⟨key, -, member⟩ := member
        cases viewMode with
        | overlaidView =>
            obtain ⟨link, -, kvItem, -, rfl, -⟩ := mem_entriesOf_overlaid sorts active member
            rfl
        | allLinkedResView =>
            obtain ⟨link, -, kvItem, -, rfl⟩ := mem_entriesOf_allLinked member
            rfl
      · simp only [List.map_flatMap, values_entriesOf]

def sampleLinked (pri : Nat) (isNeg : Bool) (res link : Char) : Addition Nat :=
  .link [link] { metadata := ⟨[], []⟩, spec := ⟨pri, isNeg, [], "path:/r".toList, ["path:/".toList ++ [res]]⟩ }

def sampleResource (res : Char) (data : List (Char × Char)) : Addition Nat :=
  .res [res] { metadata := ⟨[], []⟩, spec := ⟨data.map fun (key, value) => ⟨[], [key], [value], .null⟩⟩ }

/-- The calls that build the index of the sample. -/
def sampleAdditions : List (Addition Nat) :=
  [.rule ['r'] { metadata := ⟨[], []⟩, spec := ⟨.and []⟩ },
    sampleLinked 1 true 's' 'a', sampleLinked 2 false 's' 'b', sampleLinked 2 false 't' 'c',
    sampleLinked 2 true 'u' 'd', sampleLinked 1 false 'w' 'e',
    sampleResource 's' [('k', 'v')], sampleResource 't' [('k', 'w')], sampleResource 'u' [('x', 'v')],
    sampleResource 'w' [('x', 'w'), ('y', 'v')]]

theorem get_explained_sample :
    (∀ entry ∈ [(⟨some (sampleItem 2 false 's' 'b'), samplePairOf 'k' 'v'⟩ : CFGResult Nat),
        ⟨some (sampleItem 1 false 'w' 'e'), samplePairOf 'y' 'v'⟩],
      ∃ link, entry.reason = some link ∧ Explains sampleAdditions sampleStore.indices ∅ entry.value link ∧
        link.isNeg = false ∧ Outranks sampleStore ∅ entry.value.key link) ∧
    (Querier.get sortLinks sampleStore [⟨.and [], ['r']⟩] ∅ [['k'], ['x'], ['y']] .overlaidView false).map
      (List.map CFGResult.value) = some [samplePairOf 'k' 'v', samplePairOf 'y' 'v'] := by
  have order : sampleStore.indices.ruleStor.Iteration [⟨.and [], ['r']⟩] := sampleStore_iteration
  obtain ⟨explained, -, values⟩ := get_explained sampleAdditions sampleStore.indices rfl sampleStore.version
    sortLinks sortsByPriority_sortLinks _ order ∅ [['k'], ['x'], ['y']] .overlaidView
  refine ⟨fun entry member => ?_, values.symm⟩
  obtain ⟨link, same, explains, top⟩ := explained _ rfl entry member
  exact ⟨link, same, explains, top rfl⟩

end Eafcc.CfgCenter
