import Eafcc.CfgCenter.Determinism
import Eafcc.Parser.Evaluation
import Eafcc.Ffi

namespace Eafcc.CfgCenter

open Eafcc.RuleEngine Eafcc.Model Eafcc.Storage Eafcc.Ffi

/-! # What the view of all linked resources returns -/

variable {Pri : Type} {crates : Crates Pri} {ns : List FileName} {root root' : Node}
  {index index' : CFGIndex Pri} {store : MemStorage Pri} {whoami : MatchContext}
  {rules : List IdxRuleItem} {links : List (IdxLinkItem Pri)} {key : Str} {needExplain : Bool}
  {version version' : VersionItem} {backend : StorageBackend} {fuel : Nat} {namespaceName : Str}

/-- The link items that are filed under the rules that are true in the context, each as
often as it is filed. -/
def activeLinks (store : MemStorage Pri) (whoami : MatchContext) : Multiset (IdxLinkItem Pri) :=
  ((store.indices.ruleStor.storage.entries.map (·.2)).filter fun item =>
    item.rule.eval whoami = some true).bind fun item => itemsAt store.indices.linkStor item.absPath

/-- The pairs with a key in the resource that a link points to. -/
def pairsAt (store : MemStorage Pri) (key : Str) (link : IdxLinkItem Pri) : List KeyValuePair :=
  match store.indices.resStor.getResByPath link.absResPath with
  | none => []
  | some res => res.data.filter fun kvItem => kvItem.key == key

def linkedEntry (needExplain : Bool) (link : IdxLinkItem Pri) (kvItem : KeyValuePair) : CFGResult Pri :=
  { reason := if needExplain then some link else none, value := kvItem }

/-- One entry for each active link item and each pair with the key that it points to. -/
def linkedEntries (store : MemStorage Pri) (whoami : MatchContext) (needExplain : Bool) (key : Str) :
    Multiset (CFGResult Pri) :=
  (activeLinks store whoami).bind fun link =>
    ((pairsAt store key link).map (linkedEntry needExplain link) : List (CFGResult Pri))

theorem collectActLinks_eq (collected : collectActLinks store whoami rules = some links) :
    links = (rules.filter fun item => item.rule.eval whoami = some true).flatMap fun item =>
      itemsAt store.indices.linkStor item.absPath := by
  induction rules generalizing links with
  | nil =>
      cases collected
      rfl
  | cons rule rules ih =>
      unfold collectActLinks at collected
      cases evaluated : rule.rule.eval whoami with
      | none => simp [evaluated] at collected
      | some active =>
          cases rest : collectActLinks store whoami rules with
          | none => simp [evaluated, rest] at collected
          | some others =>
              have later := ih rest
              simp only [evaluated, rest] at collected
              cases active with
              | false =>
                  cases collected
                  rw [List.filter_cons_of_neg (by simp [evaluated])]
                  exact later
              | true =>
                  rw [List.filter_cons_of_pos (by simp [evaluated]), List.flatMap_cons, ← later]
                  cases found : store.indices.linkStor.getLinkByRulePath rule.absPath with
                  | none =>
                      simp only [found, if_true, Option.some.injEq] at collected
                      simp [itemsAt, found, collected]
                  | some filed =>
                      simp only [found, if_true, Option.some.injEq] at collected
                      simp [itemsAt, found, collected]

/-- The links that a query collects are the active ones, whatever the order of the
iteration. -/
theorem coe_collectActLinks (order : store.indices.ruleStor.Iteration rules)
    (collected : collectActLinks store whoami rules = some links) :
    (links : Multiset (IdxLinkItem Pri)) = activeLinks store whoami := by
  rw [activeLinks, ← order, collectActLinks_eq collected]
  rw [Multiset.filter_coe, Multiset.coe_bind]

theorem fetchResByAllLinkedResView_key (links : List (IdxLinkItem Pri)) :
    fetchResByAllLinkedResView store [key] links needExplain =
      links.flatMap fun link => (pairsAt store key link).map (linkedEntry needExplain link) := by
  simp only [fetchResByAllLinkedResView, List.flatMap_singleton]
  apply List.flatMap_congr
  intro link _
  unfold pairsAt
  cases store.indices.resStor.getResByPath link.absResPath with
  | none => rfl
  | some res => rfl

theorem mem_pairsAt {link : IdxLinkItem Pri} {pair : KeyValuePair} : pair ∈ pairsAt store key link ↔
    ∃ res, store.indices.resStor.getResByPath link.absResPath = some res ∧ pair ∈ res.data ∧ pair.key = key := by
  unfold pairsAt
  cases store.indices.resStor.getResByPath link.absResPath <;> simp

/-- What the overlaid view shows for a key is one of the entries of the key. -/
theorem nextKey_mem {result : CFGResult Pri} (shown : nextKey store needExplain key links = some result) :
    ∃ link ∈ links, ∃ kvItem ∈ pairsAt store key link, result = linkedEntry needExplain link kvItem := by
  rw [nextKey_eq_find] at shown
  split at shown
  · cases shown
  · rename_i link found
    split at shown
    · cases shown
    · obtain ⟨kvItem, held, rfl⟩ := Option.map_eq_some_iff.mp shown
      refine ⟨link, List.mem_of_find?_eq_some found, kvItem, ?_, rfl⟩
      obtain ⟨res, stored, first⟩ := Option.bind_eq_some_iff.mp held
      have holds := List.find?_some first
      simp only [pairsAt, stored]
      exact List.mem_filter.mpr ⟨List.mem_of_find?_eq_some first, holds⟩

theorem flatMap_subperm {α β : Type} {f g : α → List β} {items : List α}
    (each : ∀ item ∈ items, (f item).Subperm (g item)) : (items.flatMap f).Subperm (items.flatMap g) := by
  induction items with
  | nil => exact List.Subperm.refl _
  | cons item items ih =>
      obtain ⟨first, rest⟩ := List.forall_mem_cons.mp each
      exact first.append (ih rest)

/-! ## The rules of a loaded index -/

/-- No rule of the index panics in any context. -/
def EvaluableRules (index : CFGIndex Pri) : Prop :=
  ∀ path item, index.ruleStor.storage.lookup path = some item → item.rule.Evaluable

/-- A loader keeps what adding its objects keeps. -/
theorem loadObjects_keeps {Obj : Type} {directory : Str} {decode : Bytes → Except DataLoaderError Obj}
    {add : CFGIndex Pri → Str → Obj → Option (CFGIndex Pri)} {keeps : CFGIndex Pri → Prop}
    (each : ∀ {index path bytes obj after}, keeps index → decode bytes = .ok obj →
      add index path obj = some after → keeps after)
    (start : keeps index)
    (loaded : loadObjects backend directory decode add fuel namespaceName version index = some (.ok index')) :
    keeps index' := by
  have visits : ∀ index node, keeps index → keeps (indexFile backend directory decode add index node).1 := by
    intro index node holds
    unfold indexFile
    split
    · exact holds
    · split
      · exact holds
      · split
        · exact holds
        · rename_i decoded
          split
          · exact holds
          · split
            · exact holds
            · rename_i added
              exact each holds decoded added
  unfold loadObjects at loaded
  split at loaded
  · obtain ⟨⟨final, result⟩, walked, same⟩ := Option.map_eq_some_iff.mp loaded
    cases result with
    | error failure =>  cases failure <;> cases same
    | ok value =>
        cases same
        exact backend.walkDir_keeps visits start walked
  · cases loaded

theorem addRule_keeps {path : Str} {ruleObj : Rule} (keeps : EvaluableRules index)
    (evaluable : ruleObj.spec.rule.Evaluable) (added : index.addRule path ruleObj = some index') :
    EvaluableRules index' := by
  cases added
  intro other item stored
  by_cases same : other = path
  · subst same
    have own : (index.ruleStor.addRule other ruleObj).storage.lookup other =
        some ⟨ruleObj.spec.rule, other⟩ := Finmap.lookup_insert _
    cases own.symm.trans stored
    exact evaluable
  · have others : (index.ruleStor.addRule path ruleObj).storage.lookup other =
        index.ruleStor.storage.lookup other := Finmap.lookup_insert_of_ne _ same
    exact keeps other item (others.symm.trans stored)

/-- Whatever the backend gives, no rule that is loaded panics. -/
theorem load_evaluableRules
    (loads : IndexBuilder.load crates backend fuel namespaceName version = some (.ok index)) :
    EvaluableRules index := by
  obtain ⟨withRules, rules, later⟩ := thenLoad_eq_ok.mp loads
  obtain ⟨withLinks, links, reses⟩ := thenLoad_eq_ok.mp later
  have start : EvaluableRules (.empty : CFGIndex Pri) := by
    intro path item stored
    cases stored
  have first : EvaluableRules withRules := loadObjects_keeps (fun keeps decoded added => by
    obtain ⟨ruleStr, parsed⟩ := Rule.loadFromSlice_parsed decoded
    exact addRule_keeps keeps (Parser.Grammar.doParse_result parsed).2 added) start rules
  have second : EvaluableRules withLinks := loadObjects_keeps (fun keeps _ added => by
    obtain ⟨linkStor, -, rfl⟩ := Option.map_eq_some_iff.mp added
    exact keeps) first links
  exact loadObjects_keeps (fun keeps _ added => by
    cases added
    exact keeps) second reses

/-! ## Entries -/

variable [LinearOrder Pri]

theorem entriesOf_linked (sort : SortUnstableBy Pri) (links : List (IdxLinkItem Pri)) :
    entriesOf sort store links .allLinkedResView needExplain key =
      links.flatMap fun link => (pairsAt store key link).map (linkedEntry needExplain link) := by
  rw [entriesOf]
  split
  · rename_i empty
    rw [List.length_eq_zero_iff.mp empty]
    rfl
  · exact fetchResByAllLinkedResView_key links

theorem entriesOf_overlaid {sort : SortUnstableBy Pri} (sorts : SortsByPriority sort)
    (links : List (IdxLinkItem Pri)) : entriesOf sort store links .overlaidView needExplain key =
      (nextKey store needExplain key (sort compareLinks links)).toList := by
  rw [entriesOf]
  split
  · rename_i empty
    rw [List.length_eq_zero_iff.mp empty, List.perm_nil.mp (sorts []).1]
    rfl
  · rfl

/-- The entries of a key in the view of all linked resources. -/
theorem coe_entriesOf (sort : SortUnstableBy Pri) (order : store.indices.ruleStor.Iteration rules)
    (collected : collectActLinks store whoami rules = some links) (key : Str) :
    (entriesOf sort store links .allLinkedResView needExplain key : Multiset (CFGResult Pri)) =
      linkedEntries store whoami needExplain key := by
  rw [linkedEntries, ← coe_collectActLinks order collected, Multiset.coe_bind, entriesOf_linked]

theorem entriesOf_overlaid_mem {sort : SortUnstableBy Pri}
    (perm : ∀ links, (sort compareLinks links).Perm links) (order : store.indices.ruleStor.Iteration rules)
    (collected : collectActLinks store whoami rules = some links) {result : CFGResult Pri}
    (member : result ∈ entriesOf sort store links .overlaidView needExplain key) :
    result ∈ linkedEntries store whoami needExplain key := by
  unfold entriesOf at member
  split at member
  · cases member
  · obtain ⟨link, listed, kvItem, held, rfl⟩ := nextKey_mem (Option.mem_toList.mp member)
    have active : link ∈ activeLinks store whoami := by
      rw [← coe_collectActLinks order collected, Multiset.mem_coe]
      exact (perm links).mem_iff.mp listed
    exact Multiset.mem_bind.mpr ⟨link, active, Multiset.mem_coe.mpr (List.mem_map_of_mem held)⟩

theorem entriesOf_overlaid_nodup (sort : SortUnstableBy Pri) (store : MemStorage Pri)
    (links : List (IdxLinkItem Pri)) (needExplain : Bool) (key : Str) :
    (entriesOf sort store links .overlaidView needExplain key).Nodup := by
  unfold entriesOf
  split
  · exact .nil
  · cases nextKey store needExplain key (sort compareLinks links) with
    | none => exact .nil
    | some result => exact List.nodup_singleton _

/-- What the overlaid view shows is among what the view of all linked resources
shows. -/
theorem overlaid_subperm {sort sort' : SortUnstableBy Pri}
    (perm : ∀ links, (sort' compareLinks links).Perm links) {rules' : List IdxRuleItem}
    {links' : List (IdxLinkItem Pri)} (order : store.indices.ruleStor.Iteration rules)
    (order' : store.indices.ruleStor.Iteration rules')
    (collected : collectActLinks store whoami rules = some links)
    (collected' : collectActLinks store whoami rules' = some links') (keys : List Str) :
    (keys.flatMap (entriesOf sort' store links' .overlaidView needExplain)).Subperm
      (keys.flatMap (entriesOf sort store links .allLinkedResView needExplain)) := by
  apply flatMap_subperm
  intro key _
  apply List.subperm_of_subset (entriesOf_overlaid_nodup sort' store links' needExplain key)
  intro result member
  rw [← Multiset.mem_coe, coe_entriesOf sort order collected]
  exact entriesOf_overlaid_mem perm order' collected' member

/-! ## Loaded indices -/

omit [LinearOrder Pri] in
/-- A rule of a loaded index is evaluated without a panic. -/
theorem Loaded.evaluates (loaded : Loaded crates root ns index) {path : Str} {item : IdxRuleItem}
    (stored : index.ruleStor.storage.lookup path = some item) : item.rule.eval whoami ≠ none := by
  obtain ⟨names, bytes, ruleObj, -, decoded, -, rfl⟩ := (loaded.rules path item).mp stored
  obtain ⟨ruleStr, parsed⟩ := Rule.loadFromSlice_parsed decoded
  exact (Parser.Grammar.doParse_result parsed).2.evaluates whoami

omit [LinearOrder Pri] in
theorem SameContent.activeLinks_eq (same : SameContent index index') :
    activeLinks (storeOf version index) whoami = activeLinks (storeOf version' index') whoami := by
  have storage : index.ruleStor.storage = index'.ruleStor.storage := Finmap.ext_lookup same.rules
  simp only [activeLinks, storeOf, storage]
  apply Multiset.bind_congr
  intro item _
  exact Multiset.coe_eq_coe.mpr (same.links item.absPath)

omit [LinearOrder Pri] in
theorem SameContent.linkedEntries_eq (same : SameContent index index') :
    linkedEntries (storeOf version index) whoami needExplain key =
      linkedEntries (storeOf version' index') whoami needExplain key := by
  have pairs : ∀ link : IdxLinkItem Pri, pairsAt (storeOf version index) key link =
      pairsAt (storeOf version' index') key link := by
    intro link
    simp only [pairsAt, storeOf, same.reses]
  have active : activeLinks (storeOf version index) whoami = activeLinks (storeOf version' index') whoami :=
    same.activeLinks_eq
  simp only [linkedEntries, pairs, active]

/-- A query in the view of all linked resources returns for each requested key in turn
one entry for each active link item and each pair with the key that it points to, among
them what the overlaid view returns. Loaded from the same files, two indices have the
same entries, and no query on them panics. -/
theorem get_allLinkedResView (Pri : Type) [LinearOrder Pri] :
    (∀ (sort : SortUnstableBy Pri) (store : MemStorage Pri) (rules : List IdxRuleItem)
        (whoami : MatchContext) (keys : List Str) (needExplain : Bool),
      store.indices.ruleStor.Iteration rules →
      (Querier.get sort store rules whoami keys .allLinkedResView needExplain = none ↔
        ∃ path item, store.indices.ruleStor.storage.lookup path = some item ∧
          item.rule.eval whoami = none) ∧
      ∀ results, Querier.get sort store rules whoami keys .allLinkedResView needExplain = some results →
        (∃ groups : Str → List (CFGResult Pri), results = keys.flatMap groups ∧
          ∀ key, (groups key : Multiset (CFGResult Pri)) = linkedEntries store whoami needExplain key) ∧
        ∀ (sort' : SortUnstableBy Pri) (rules' : List IdxRuleItem) (shown : List (CFGResult Pri)),
          (∀ links, (sort' compareLinks links).Perm links) → store.indices.ruleStor.Iteration rules' →
          Querier.get sort' store rules' whoami keys .overlaidView needExplain = some shown →
          shown.Subperm results) ∧
    (∀ (crates : Crates Pri) (ns : List FileName) (backend backend' : StorageBackend)
        (version version' : VersionItem) (root root' : Node) (hash hash' : List FileName → ObjectID)
        (fuel fuel' : Nat) (index index' : CFGIndex Pri),
      Serves backend version root hash → Serves backend' version' root' hash' →
      SameFiles ns root root' →
      IndexBuilder.load crates backend fuel (namespaceText ns) version = some (.ok index) →
      IndexBuilder.load crates backend' fuel' (namespaceText ns) version' = some (.ok index') →
      ∀ (whoami : MatchContext) (needExplain : Bool),
        (∀ key, linkedEntries (storeOf version index) whoami needExplain key =
          linkedEntries (storeOf version' index') whoami needExplain key) ∧
        ∀ (sort : SortUnstableBy Pri) (rules : List IdxRuleItem) (keys : List Str),
          index.ruleStor.Iteration rules →
          Querier.get sort (storeOf version index) rules whoami keys .allLinkedResView needExplain ≠ none) := by
  constructor
  · intro sort store rules whoami keys needExplain order
    refine ⟨get_eq_none order, fun results returned => ?_⟩
    rw [get_eq] at returned
    obtain ⟨links, collected, rfl⟩ := Option.map_eq_some_iff.mp returned
    refine ⟨⟨_, rfl, coe_entriesOf sort order collected⟩, fun sort' rules' shown perm order' shown' => ?_⟩
    rw [get_eq] at shown'
    obtain ⟨links', collected', rfl⟩ := Option.map_eq_some_iff.mp shown'
    exact overlaid_subperm perm order order' collected collected' keys
  · intro crates ns backend backend' version version' root root' hash hash' fuel fuel' index index'
      serves serves' same loads loads' whoami needExplain
    have loaded := load_loaded serves loads
    have content := loaded.sameContent (load_loaded serves' loads') same
    refine ⟨fun key => content.linkedEntries_eq, fun sort rules keys order panics => ?_⟩
    obtain ⟨path, item, stored, panics⟩ := (get_eq_none order).mp panics
    exact loaded.evaluates stored panics

theorem get_allLinkedResView_sample :
    (∃ groups : Str → List (CFGResult Nat),
      [⟨none, samplePairOf 'k' 'v'⟩, ⟨none, samplePairOf 'k' 'v'⟩, ⟨none, samplePairOf 'k' 'w'⟩,
        ⟨none, samplePairOf 'x' 'v'⟩, ⟨none, samplePairOf 'x' 'w'⟩] = [['k'], ['z'], ['x']].flatMap groups ∧
      ∀ key, (groups key : Multiset (CFGResult Nat)) = linkedEntries sampleStore ∅ false key) ∧
    ∃ fuel index rules,
      IndexBuilder.load sampleCrates sampleBackend fuel (namespaceText []) sampleVersion = some (.ok index) ∧
      index.ruleStor.Iteration rules ∧
      Querier.get sortLinks (storeOf sampleVersion index) rules sampleContext [['k']] .allLinkedResView false ≠
        none := by
  obtain ⟨first, second⟩ := get_allLinkedResView Nat
  obtain ⟨hash, serves⟩ := sample_serves
  obtain ⟨fuel, index, loads⟩ := sample_loads serves
  have order := sample_iteration (load_loaded serves loads)
  constructor
  · exact ((first sortLinks sampleStore _ ∅ [['k'], ['z'], ['x']] false sampleStore_iteration).2 _ rfl).1
  · have same : SameFiles [] sampleRoot sampleRoot := fun _ _ => .refl _
    exact ⟨fuel, index, _, loads, order, (second sampleCrates [] sampleBackend sampleBackend sampleVersion
      sampleVersion sampleRoot sampleRoot hash hash fuel fuel index index serves serves same loads loads
      sampleContext false).2 sortLinks _ [['k']] order⟩

end Eafcc.CfgCenter
