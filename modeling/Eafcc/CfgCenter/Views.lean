import Eafcc.CfgCenter.Explain

namespace Eafcc.CfgCenter

open Eafcc.RuleEngine Eafcc.Ffi

/-! # One view computed from the other

A client that has the explained entries of a key in the view of all linked resources
knows what the overlaid view may show for the key.
-/

variable {Pri : Type} [LinearOrder Pri] {store : MemStorage Pri} {whoami : MatchContext}
  {rules : List IdxRuleItem} {links : List (IdxLinkItem Pri)} {key : Str} {link : IdxLinkItem Pri}
  {group : List (CFGResult Pri)} {shown : Option (CFGResult Pri)}

/-- The reason of an entry, of the greatest priority of those. -/
def Leads (group : List (CFGResult Pri)) : IdxLinkItem Pri → Prop :=
  Ranked.Top IdxLinkItem.pri fun link => ∃ entry ∈ group, entry.reason = some link

/-- What the overlaid view may show of the explained entries of a key. -/
inductive Overlays (group : List (CFGResult Pri)) : Option (CFGResult Pri) → Prop
  | shown {link : IdxLinkItem Pri} {entry : CFGResult Pri} :
      Leads group link → (∀ other, Leads group other → other.isNeg = false) →
      group.find? (fun entry => entry.reason = some link) = some entry → Overlays group (some entry)
  | masked {link : IdxLinkItem Pri} : Leads group link → link.isNeg = true → Overlays group none
  | absent : group = [] → Overlays group none

omit [LinearOrder Pri] in
theorem heldPair_eq_head (link : IdxLinkItem Pri) : heldPair store key link = (pairsAt store key link).head? := by
  unfold heldPair pairsAt
  cases store.indices.resStor.getResByPath link.absResPath with
  | none => rfl
  | some res => exact List.head?_filter.symm

/-- The explained entries of a key, link by link. -/
def explained (store : MemStorage Pri) (key : Str) (links : List (IdxLinkItem Pri)) : List (CFGResult Pri) :=
  links.flatMap fun link => (pairsAt store key link).map (linkedEntry true link)

omit [LinearOrder Pri] in
theorem explained_reason : (∃ entry ∈ explained store key links, entry.reason = some link) ↔
    link ∈ links ∧ heldPair store key link ≠ none := by
  constructor
  · intro found
    obtain ⟨entry, member, reason⟩ := found
    obtain ⟨other, listed, member⟩ := List.mem_flatMap.mp member
    obtain ⟨kvItem, held, rfl⟩ := List.mem_map.mp member
    cases reason
    refine ⟨listed, fun none => ?_⟩
    rw [heldPair_eq_head, List.head?_eq_none_iff] at none
    rw [none] at held
    cases held
  · intro holds
    obtain ⟨listed, held⟩ := holds
    obtain ⟨kvItem, first⟩ := Option.ne_none_iff_exists'.mp held
    rw [heldPair_eq_head] at first
    exact ⟨linkedEntry true link kvItem,
      List.mem_flatMap.mpr ⟨link, listed, List.mem_map_of_mem (List.mem_of_mem_head? first)⟩, rfl⟩

/-- The first entry that a link explains is that of the first pair it holds. -/
theorem explained_first {kvItem : KeyValuePair} (listed : link ∈ links)
    (held : heldPair store key link = some kvItem) :
    (explained store key links).find? (fun entry => entry.reason = some link) =
      some (linkedEntry true link kvItem) := by
  induction links with
  | nil => cases listed
  | cons first rest ih =>
      have whole : explained store key (first :: rest) =
        (pairsAt store key first).map (linkedEntry true first) ++ explained store key rest := List.flatMap_cons
      rw [whole, List.find?_append]
      by_cases own : first = link
      · rw [own]
        rw [heldPair_eq_head, List.head?_eq_some_iff] at held
        obtain ⟨others, pairs⟩ := held
        rw [pairs, List.map_cons, List.find?_cons_of_pos (by simp [linkedEntry])]
        rfl
      · have apart : ((pairsAt store key first).map (linkedEntry true first)).find?
            (fun entry => entry.reason = some link) = none := by
          apply List.find?_eq_none.mpr
          intro entry member
          obtain ⟨other, -, rfl⟩ := List.mem_map.mp member
          simpa [linkedEntry] using own
        rw [apart, Option.none_or]
        exact ih ((List.mem_cons.mp listed).resolve_left (Ne.symm own))

theorem leads_iff (active : ∀ link, link ∈ links ↔ Active store whoami link) :
    Leads (explained store key links) link ↔ Topmost store whoami key link := by
  apply Ranked.top_congr
  intro other
  rw [explained_reason, active]

/-- What the overlaid view has to return is what the explained entries say. -/
theorem overlayEntry_iff (active : ∀ link, link ∈ links ↔ Active store whoami link) :
    OverlayEntry store whoami true key shown ↔ Overlays (explained store key links) shown := by
  constructor
  · intro entry
    cases entry with
    | @shown link pair top held positive =>
        have listed := (active link).mpr top.1.1
        exact .shown ((leads_iff active).mpr top) (fun other leads => positive other ((leads_iff active).mp leads))
          (explained_first listed held)
    | masked top negative => exact .masked ((leads_iff active).mpr top) negative
    | absent missing =>
        refine .absent (List.eq_nil_iff_forall_not_mem.mpr fun entry member => ?_)
        obtain ⟨link, -, paired⟩ := List.mem_flatMap.mp member
        obtain ⟨pair, -, rfl⟩ := List.mem_map.mp paired
        obtain ⟨listed, held⟩ := explained_reason.mp ⟨_, member, rfl⟩
        exact held (missing link ((active link).mp listed))
  · intro entry
    cases entry with
    | @shown link entry leads positive first =>
        have top := (leads_iff active).mp leads
        obtain ⟨pair, held⟩ := Option.ne_none_iff_exists'.mp top.1.2
        rw [explained_first ((active link).mpr top.1.1) held, Option.some.injEq] at first
        rw [← first]
        exact .shown top held fun other top' => positive other ((leads_iff active).mpr top')
    | masked leads negative => exact .masked ((leads_iff active).mp leads) negative
    | absent empty =>
        refine .absent fun link isActive => ?_
        by_contra held
        obtain ⟨entry, member, -⟩ := explained_reason.mpr ⟨(active link).mpr isActive, held⟩
        rw [empty] at member
        cases member

/-! ## A sort that shows a given leader -/

/-- A lawful sort that puts a link before the others of its priority and sign. -/
def sortFavouring (favourite : IdxLinkItem Pri) : SortUnstableBy Pri := fun _ links =>
  Ranked.favouring IdxLinkItem.pri IdxLinkItem.isNeg favourite links

theorem sortsByPriority_sortFavouring (favourite : IdxLinkItem Pri) : SortsByPriority (sortFavouring favourite) :=
  fun links => ⟨Ranked.favouring_perm links, Ranked.favouring_arranged links⟩

theorem nextKey_sortFavouring {pair : KeyValuePair} (active : ∀ link, link ∈ links ↔ Active store whoami link)
    (top : Topmost store whoami key link) (positive : ∀ other, Topmost store whoami key other → other.isNeg = false)
    (held : heldPair store key link = some pair) :
    nextKey store true key (sortFavouring link compareLinks links) = some (linkedEntry true link pair) := by
  have candidates : ∀ other, (other ∈ links ∧ (heldPair store key other).isSome = true) ↔
      (Active store whoami other ∧ heldPair store key other ≠ none) := by
    intro other
    rw [active, Option.isSome_iff_ne_none]
  have found : (sortFavouring link compareLinks links).find? (fun other => (heldPair store key other).isSome) =
      some link :=
    Ranked.find_favouring ((Ranked.top_congr candidates).mpr top) fun other top' =>
      positive other ((Ranked.top_congr candidates).mp top')
  rw [nextKey_eq_find, found]
  simp [positive link top, held, linkedEntry]

/-! ## Queries -/

theorem get_explainedKey (sort : SortUnstableBy Pri) (rules : List IdxRuleItem) (key : Str) :
    Querier.get sort store rules whoami [key] .allLinkedResView true =
      (collectActLinks store whoami rules).map (explained store key) := by
  rw [get_eq]
  congr 1
  funext links
  rw [List.flatMap_singleton, entriesOf_linked]
  rfl

theorem get_overlaidKey {sort : SortUnstableBy Pri} (sorts : SortsByPriority sort) (key : Str)
    (collected : collectActLinks store whoami rules = some links) :
    Querier.get sort store rules whoami [key] .overlaidView true =
      some (nextKey store true key (sort compareLinks links)).toList := by
  rw [get_eq, collected, Option.map_some, List.flatMap_singleton, entriesOf_overlaid sorts]

theorem OverlayEntry.none_of_none {entry : Option (CFGResult Pri)} {needExplain : Bool}
    (hidden : OverlayEntry store whoami needExplain key none)
    (shows : OverlayEntry store whoami needExplain key entry) : entry = none := by
  cases shows with
  | masked | absent => rfl
  | @shown link pair top held positive =>
      cases hidden with
      | masked other negative =>
          rw [positive _ other] at negative
          cases negative
      | absent missing =>
          rw [missing link top.1.1] at held
          cases held

/-- A key that has nothing to show is left out by every lawful sort. -/
theorem get_overlaidKey_hidden {sort : SortUnstableBy Pri} (sorts : SortsByPriority sort)
    (order : store.indices.ruleStor.Iteration rules) (collected : collectActLinks store whoami rules = some links)
    (hidden : OverlayEntry store whoami true key none) :
    Querier.get sort store rules whoami [key] .overlaidView true = some [] := by
  obtain ⟨perm, arranged⟩ := sorts links
  have shows : OverlayEntry store whoami true key (nextKey store true key (sort compareLinks links)) :=
    nextKey_overlayEntry arranged fun link =>
      perm.mem_iff.trans (mem_collectActLinks_iff_active order collected link)
  rw [get_overlaidKey sorts key collected, hidden.none_of_none shows]
  rfl

/-- The explained entries of the keys in the view of all linked resources determine what the
overlaid view may show: for each key an entry of the leading links, if none of them is
negative, and each of these under some lawful sort. -/
theorem overlaid_of_explained (store : MemStorage Pri) (whoami : MatchContext) (sort : SortUnstableBy Pri)
    (rules : List IdxRuleItem) (order : store.indices.ruleStor.Iteration rules)
    (groups : Str → List (CFGResult Pri))
    (explains : ∀ key, Querier.get sort store rules whoami [key] .allLinkedResView true = some (groups key)) :
    (∀ (sort' : SortUnstableBy Pri) (rules' : List IdxRuleItem) (keys : List Str), SortsByPriority sort' →
      store.indices.ruleStor.Iteration rules' →
      ∃ entries, List.Forall₂ (fun key => Overlays (groups key)) keys entries ∧
        Querier.get sort' store rules' whoami keys .overlaidView true = some entries.reduceOption) ∧
    ∀ key shown, Overlays (groups key) shown → ∃ sort', SortsByPriority sort' ∧
      ∀ rules', store.indices.ruleStor.Iteration rules' →
        Querier.get sort' store rules' whoami [key] .overlaidView true = some shown.toList := by
  obtain ⟨links, collected⟩ : ∃ links, collectActLinks store whoami rules = some links := by
    have first := explains []
    rw [get_explainedKey] at first
    obtain ⟨links, collected, -⟩ := Option.map_eq_some_iff.mp first
    exact ⟨links, collected⟩
  have active := mem_collectActLinks_iff_active order collected
  have same : ∀ key, groups key = explained store key links := by
    intro key
    have whole := explains key
    rw [get_explainedKey, collected, Option.map_some, Option.some.injEq] at whole
    exact whole.symm
  constructor
  · intro sort' rules' keys sorts order'
    obtain ⟨links', collected'⟩ := collectActLinks_reordered order order' collected
    have returned := get_eq sort' store rules' whoami keys .overlaidView true
    rw [collected', Option.map_some] at returned
    obtain ⟨sorted, arranged, listed, results⟩ := get_eq_filterMap sorts order' returned
    have each : ∀ key ∈ keys, Overlays (groups key) (nextKey store true key sorted) := by
      intro key _
      rw [same]
      exact (overlayEntry_iff active).mp (nextKey_overlayEntry arranged listed)
    obtain ⟨entries, overlays, reduced⟩ := forall₂_reduceOption each
    exact ⟨entries, overlays, by rw [returned, results, reduced]⟩
  · intro key shown overlays
    rw [same] at overlays
    have entry := (overlayEntry_iff active).mpr overlays
    have hides : OverlayEntry store whoami true key none → ∀ rules', store.indices.ruleStor.Iteration rules' →
        Querier.get sortLinks store rules' whoami [key] .overlaidView true = some [] := by
      intro hidden rules' order'
      obtain ⟨links', collected'⟩ := collectActLinks_reordered order order' collected
      exact get_overlaidKey_hidden sortsByPriority_sortLinks order' collected' hidden
    cases entry with
    | @shown link pair top held positive =>
        refine ⟨sortFavouring link, sortsByPriority_sortFavouring link, fun rules' order' => ?_⟩
        obtain ⟨links', collected'⟩ := collectActLinks_reordered order order' collected
        rw [get_overlaidKey (sortsByPriority_sortFavouring link) key collected',
          nextKey_sortFavouring (mem_collectActLinks_iff_active order' collected') top positive held]
        rfl
    | masked top negative => exact ⟨sortLinks, sortsByPriority_sortLinks, hides (.masked top negative)⟩
    | absent missing => exact ⟨sortLinks, sortsByPriority_sortLinks, hides (.absent missing)⟩

/-- The explained entries of the sample. -/
def sampleGroups (key : Str) : List (CFGResult Nat) :=
  explained sampleStore key [sampleItem 1 true 's' 'a', sampleItem 2 false 's' 'b', sampleItem 2 false 't' 'c',
    sampleItem 2 true 'u' 'd', sampleItem 1 false 'w' 'e']

theorem sampleGroups_leads {link : IdxLinkItem Nat} (leads : Leads (sampleGroups ['k']) link) :
    link.isNeg = false := by
  obtain ⟨⟨entry, member, reason⟩, highest⟩ := leads
  have bound : 2 ≤ link.pri := highest (sampleItem 2 false 's' 'b') ⟨_, List.mem_cons_of_mem _ List.mem_cons_self, rfl⟩
  have listed : ∀ entry ∈ sampleGroups ['k'], ∀ link, entry.reason = some link → 2 ≤ link.pri →
      link.isNeg = false := by decide
  exact listed entry member link reason bound

/-- Each of two tied entries is shown under some sort. -/
theorem overlaid_of_explained_sample :
    (∃ entries, List.Forall₂ (fun key => Overlays (sampleGroups key)) [['k'], ['x'], ['y']] entries ∧
      Querier.get sortLinks sampleStore [⟨.and [], ['r']⟩] ∅ [['k'], ['x'], ['y']] .overlaidView true =
        some entries.reduceOption) ∧
    ∀ entry ∈ [(⟨some (sampleItem 2 false 's' 'b'), samplePairOf 'k' 'v'⟩ : CFGResult Nat),
        ⟨some (sampleItem 2 false 't' 'c'), samplePairOf 'k' 'w'⟩],
      ∃ sort, SortsByPriority sort ∧
        Querier.get sort sampleStore [⟨.and [], ['r']⟩] ∅ [['k']] .overlaidView true = some [entry] := by
  have collected : collectActLinks sampleStore ∅ [⟨.and [], ['r']⟩] = some _ := rfl
  obtain ⟨shows, each⟩ := overlaid_of_explained sampleStore ∅ sortLinks _ sampleStore_iteration
    sampleGroups fun key => by rw [get_explainedKey, collected]; rfl
  refine ⟨shows sortLinks _ _ sortsByPriority_sortLinks sampleStore_iteration, fun entry member => ?_⟩
  have tied : ∃ link, entry.reason = some link ∧ link.pri = 2 ∧ entry ∈ sampleGroups ['k'] ∧
      (sampleGroups ['k']).find? (fun entry => entry.reason = some link) = some entry := by
    rcases List.mem_pair.mp member with rfl | rfl
    · exact ⟨_, rfl, rfl, by decide, rfl⟩
    · exact ⟨_, rfl, rfl, by decide, rfl⟩
  obtain ⟨link, reason, top, listed, first⟩ := tied
  have leads : Leads (sampleGroups ['k']) link := by
    refine ⟨⟨entry, listed, reason⟩, fun other explains => ?_⟩
    obtain ⟨other', member', reason'⟩ := explains
    have bound : ∀ entry ∈ sampleGroups ['k'], ∀ link, entry.reason = some link → link.pri ≤ 2 := by decide
    rw [top]
    exact bound other' member' other reason'
  obtain ⟨sort, sorts, found⟩ := each ['k'] (some entry)
    (.shown leads (fun _ => sampleGroups_leads) first)
  exact ⟨sort, sorts, found _ sampleStore_iteration⟩

end Eafcc.CfgCenter
