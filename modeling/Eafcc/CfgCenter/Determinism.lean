import Eafcc.CfgCenter.Loading
import Eafcc.CfgCenter.Overlay

namespace Eafcc.CfgCenter

open Eafcc.RuleEngine Eafcc.Model Eafcc.Storage

/-! # What a query's values depend on -/

variable {Pri : Type} {crates : Crates Pri} {ns : List FileName} {root root' : Node}
  {index index' : CFGIndex Pri} {whoami : MatchContext} {key : Str} {needExplain : Bool}

/-! ## Indices with the same content -/

/-- The trees hold the same files for a namespace, in whatever order they are
listed. -/
def SameFiles (ns : List FileName) (root root' : Node) : Prop :=
  ∀ top ∈ [rulesName, linksName, resesName],
    (filesAt root (top :: ns)).Perm (filesAt root' (top :: ns))

structure SameContent (index index' : CFGIndex Pri) : Prop where
  rules : ∀ key, index.ruleStor.storage.lookup key = index'.ruleStor.storage.lookup key
  reses : ∀ key, index.resStor.getResByPath key = index'.resStor.getResByPath key
  links : ∀ rulePath, (itemsAt index.linkStor rulePath).Perm (itemsAt index'.linkStor rulePath)

theorem SameFiles.located {top : FileName} (same : SameFiles ns root root')
    (member : top ∈ [rulesName, linksName, resesName]) (walkable : Walkable root (top :: ns))
    (walkable' : Walkable root' (top :: ns)) (path : List FileName) (content : Except IOError Bytes) :
    root.find (top :: ns ++ path) = some (.file content) ↔
      root'.find (top :: ns ++ path) = some (.file content) := by
  obtain ⟨node, found, -⟩ := walkable
  obtain ⟨node', found', -⟩ := walkable'
  rw [← mem_filesAt ⟨node, found⟩, ← mem_filesAt ⟨node', found'⟩]
  exact (same top member).mem_iff

/-- The same files give the same content. -/
theorem Loaded.sameContent (loaded : Loaded crates root ns index)
    (loaded' : Loaded crates root' ns index') (same : SameFiles ns root root') :
    SameContent index index' where
  rules key := by
    have located := same.located (by simp) loaded.rulesRead.1 loaded'.rulesRead.1
    apply Option.ext
    intro item
    rw [loaded.rules, loaded'.rules]
    simp only [located]
  reses key := by
    have located := same.located (by simp) loaded.resesRead.1 loaded'.resesRead.1
    apply Option.ext
    intro res
    rw [loaded.reses, loaded'.reses]
    simp only [located]
  links rulePath :=
    (loaded.links rulePath).trans
      (((same linksName (by simp)).flatMap_right _).trans (loaded'.links rulePath).symm)

/-! ## Queries on them -/

def storeOf (version : VersionItem) (index : CFGIndex Pri) : MemStorage Pri :=
  { version, indices := index }

variable {version version' : VersionItem}

theorem active_iff_itemsAt (link : IdxLinkItem Pri) :
    Active (storeOf version index) whoami link ↔
      ∃ path item, index.ruleStor.storage.lookup path = some item ∧
        item.rule.eval whoami = some true ∧ link ∈ itemsAt index.linkStor path := by
  constructor
  · rintro ⟨path, item, links, stored, holds, found, member⟩
    have listed : index.linkStor.getLinkByRulePath path = some links := found
    exact ⟨path, item, stored, holds, by simpa [itemsAt, listed] using member⟩
  · rintro ⟨path, item, stored, holds, member⟩
    cases found : index.linkStor.getLinkByRulePath path with
    | none => simp [itemsAt, found] at member
    | some links =>
        exact ⟨path, item, links, stored, holds, found, by simpa [itemsAt, found] using member⟩

theorem SameContent.active_iff (same : SameContent index index') (link : IdxLinkItem Pri) :
    Active (storeOf version index) whoami link ↔ Active (storeOf version' index') whoami link := by
  simp only [active_iff_itemsAt, same.rules, (same.links _).mem_iff]

theorem SameContent.heldPair_eq (same : SameContent index index') (link : IdxLinkItem Pri) :
    heldPair (storeOf version index) key link = heldPair (storeOf version' index') key link := by
  simp only [heldPair, storeOf, same.reses]

variable [LinearOrder Pri]

theorem SameContent.topmost_iff (same : SameContent index index') (link : IdxLinkItem Pri) :
    Topmost (storeOf version index) whoami key link ↔
      Topmost (storeOf version' index') whoami key link := by
  apply Ranked.top_congr
  intro link
  rw [same.active_iff, same.heldPair_eq]

/-- The active links of the greatest priority that hold a key agree on its first
pair. -/
def Agreed (store : MemStorage Pri) (whoami : MatchContext) (key : Str) : Prop :=
  ∀ link other, Topmost store whoami key link → Topmost store whoami key other →
    heldPair store key link = heldPair store key other

/-- Two runs that fulfil what is required for a key show it in both or in
neither, and with one value where the topmost links agree. -/
theorem OverlayEntry.determined {entry entry' : Option (CFGResult Pri)}
    (same : SameContent index index')
    (first : OverlayEntry (storeOf version index) whoami needExplain key entry)
    (second : OverlayEntry (storeOf version' index') whoami needExplain key entry') :
    entry.isSome = entry'.isSome ∧
    (Agreed (storeOf version index) whoami key →
      entry.map CFGResult.value = entry'.map CFGResult.value) := by
  have top : ∀ link, Topmost (storeOf version index) whoami key link ↔
      Topmost (storeOf version' index') whoami key link := same.topmost_iff
  cases first with
  | @shown link pair topmost held positive =>
      cases second with
      | @shown link' pair' topmost' held' positive' =>
          refine ⟨rfl, fun agreed => ?_⟩
          have both := agreed link link' topmost ((top link').mpr topmost')
          have held'' : heldPair (storeOf version index) key link' = some pair' := by
            rw [same.heldPair_eq]
            exact held'
          rw [held, held''] at both
          simpa using both
      | masked topmost' negative =>
          exact absurd (positive _ ((top _).mpr topmost')) (by simp [negative])
      | absent missing =>
          have holds := (top link).mp topmost
          exact absurd (missing link holds.1.1) holds.1.2
  | @masked link topmost negative =>
      cases second with
      | shown topmost' held' positive' =>
          exact absurd (positive' _ ((top _).mp topmost)) (by simp [negative])
      | masked _ _ => simp
      | absent _ => simp
  | absent missing =>
      cases second with
      | @shown link' pair' topmost' held' positive' =>
          have holds := (top link').mpr topmost'
          exact absurd (missing link' holds.1.1) holds.1.2
      | masked _ _ => simp
      | absent _ => simp

/-- Two runs over the same files, each with its own listing order, order of the
rule map and sort, show the same keys, and with the same value each key on
which the topmost links agree. -/
theorem get_overlaidView_sameFiles (crates : Crates Pri) (ns : List FileName)
    (backend backend' : StorageBackend) (version version' : VersionItem) (root root' : Node)
    (hash hash' : List FileName → ObjectID) (serves : Serves backend version root hash)
    (serves' : Serves backend' version' root' hash') (same : SameFiles ns root root')
    (fuel fuel' : Nat) (index index' : CFGIndex Pri)
    (loaded : IndexBuilder.load crates backend fuel (namespaceText ns) version = some (.ok index))
    (loaded' : IndexBuilder.load crates backend' fuel' (namespaceText ns) version' =
      some (.ok index'))
    (sort sort' : SortUnstableBy Pri) (sorts : SortsByPriority sort) (sorts' : SortsByPriority sort')
    (rules rules' : List IdxRuleItem) (order : index.ruleStor.Iteration rules)
    (order' : index'.ruleStor.Iteration rules') (whoami : MatchContext) (keys : List Str)
    (needExplain : Bool) :
    (Querier.get sort (storeOf version index) rules whoami keys .overlaidView needExplain = none ↔
      Querier.get sort' (storeOf version' index') rules' whoami keys .overlaidView needExplain = none) ∧
    ∀ results results',
      Querier.get sort (storeOf version index) rules whoami keys .overlaidView needExplain =
        some results →
      Querier.get sort' (storeOf version' index') rules' whoami keys .overlaidView needExplain =
        some results' →
      ∃ entry entry' : Str → Option (CFGResult Pri),
        results = keys.filterMap entry ∧ results' = keys.filterMap entry' ∧
        ∀ key, (entry key).isSome = (entry' key).isSome ∧
          (Agreed (storeOf version index) whoami key →
            (entry key).map CFGResult.value = (entry' key).map CFGResult.value) := by
  have content := (load_loaded serves loaded).sameContent (load_loaded serves' loaded') same
  constructor
  · rw [get_eq_none order, get_eq_none order']
    simp only [storeOf, content.rules]
  · intro results results' returned returned'
    obtain ⟨links, arranged, active, rfl⟩ := get_eq_filterMap sorts order returned
    obtain ⟨links', arranged', active', rfl⟩ := get_eq_filterMap sorts' order' returned'
    exact ⟨_, _, rfl, rfl, fun key => (nextKey_overlayEntry arranged active).determined content
      (nextKey_overlayEntry arranged' active')⟩

/-! ## Two resources under one link -/

section Sample

variable {index : CFGIndex Nat}

def sampleContext : MatchContext := Finmap.singleton ['a'] (.str ['1'])

def sampleLinkItem (absResPath : Str) : IdxLinkItem Nat :=
  ⟨1, false, "path:/r".toList, absResPath, ['l']⟩

def samplePair (data : Char) : KeyValuePair := ⟨"text".toList, ['k'], [data]⟩

/-- The entries of the files of a sample directory. -/
theorem sampleDir_entries {Obj Entry : Type} {top : FileName} {names : Listing}
    {content : FileName → Str} (found : sampleRoot.find [top] = some (sampleDir names content))
    {decode : Bytes → Except DataLoaderError Obj} {entry : Str → Obj → Entry} {key : Str}
    {value : Entry} :
    (∃ path bytes obj, sampleRoot.find ([top] ++ path) = some (.file (.ok bytes)) ∧
      decode bytes = .ok obj ∧ key = relativePath ([] ++ path) ∧ value = entry key obj) ↔
    ∃ name ∈ names.val, ∃ obj, decode (toUtf8 (content name)) = .ok obj ∧ key = name.text ∧
      value = entry key obj := by
  have named : ∀ name : FileName, relativePath ([] ++ [name]) = name.text := by
    intro name
    simp [relativePath]
  constructor
  · rintro ⟨path, bytes, obj, located, decoded, rfl, rfl⟩
    obtain ⟨name, listed, rfl, same⟩ := (find_sampleDir found path _).mp located
    cases same
    exact ⟨name, listed, obj, decoded, named name, rfl⟩
  · rintro ⟨name, listed, obj, decoded, rfl, rfl⟩
    have located := (find_sampleDir found [name] _).mpr ⟨name, listed, rfl, rfl⟩
    exact ⟨[name], _, obj, located, decoded, (named name).symm, rfl⟩

theorem sample_serves : ∃ hash, Serves sampleBackend sampleVersion sampleRoot hash :=
  ⟨_, FilesystemBackend.serves (fromUtf8_toUtf8 _) sampleSystem_resolves⟩

theorem sample_iteration (loaded : Loaded sampleCrates sampleRoot [] index) :
    index.ruleStor.Iteration [ruleEntry ['r'] sampleRule] := by
  have single : index.ruleStor.storage = Finmap.singleton ['r'] (ruleEntry ['r'] sampleRule) := by
    apply Finmap.ext_lookup
    intro key
    apply Option.ext
    intro item
    rw [loaded.rules]
    have found : sampleRoot.find [rulesName] =
      some (sampleDir ⟨[ruleFile], by decide⟩ fun _ => sampleRuleText) := rfl
    refine (sampleDir_entries found).trans ?_
    by_cases same : key = ['r']
    · subst same
      rw [Finmap.lookup_singleton_eq]
      simp [sampleRule_decoded, ruleFile, eq_comm]
    · rw [Finmap.lookup_eq_none.mpr (by simpa using same)]
      simp [ruleFile, same]
  rw [RuleIndex.Iteration, single]
  rfl

theorem sample_reses (loaded : Loaded sampleCrates sampleRoot [] index) :
    index.resStor.getResByPath ['s'] = some (resEntry ['s'] (sampleRes 'v')) ∧
    index.resStor.getResByPath ['t'] = some (resEntry ['t'] (sampleRes 'w')) := by
  constructor
  · refine (loaded.reses _ _).mpr (sampleDir_entries rfl |>.mpr ?_)
    exact ⟨resFile, by simp, _, sampleRes_decoded.1, rfl, rfl⟩
  · refine (loaded.reses _ _).mpr (sampleDir_entries rfl |>.mpr ?_)
    exact ⟨otherResFile, by simp, _, sampleRes_decoded.2, rfl, rfl⟩

theorem sample_links (loaded : Loaded sampleCrates sampleRoot [] index) :
    (itemsAt index.linkStor ['r']).Perm [sampleLinkItem ['s'], sampleLinkItem ['t']] := by
  have files : filesAt sampleRoot [linksName] = [([linkFile], .ok (toUtf8 sampleLinkText))] := rfl
  have added := loaded.links ['r']
  rw [files] at added
  have items : linkEntries sampleCrates [] ['r'] ([linkFile], .ok (toUtf8 sampleLinkText)) =
      [sampleLinkItem ['s'], sampleLinkItem ['t']] := linkEntries_decoded sampleLink_decoded rfl
  rwa [List.flatMap_singleton, items] at added

/-- A sort that lets ties come out in a given order on one list. -/
def sortPreferring (preferred : List (IdxLinkItem Nat)) : SortUnstableBy Nat := fun compare links =>
  if links.Perm preferred then preferred else sortLinks compare links

theorem sortsByPriority_sortPreferring (preferred : List (IdxLinkItem Nat))
    (arranged : preferred.Pairwise (Ranked.Before IdxLinkItem.pri IdxLinkItem.isNeg)) :
    SortsByPriority (sortPreferring preferred) := by
  intro links
  unfold sortPreferring
  split
  · rename_i same
    exact ⟨same.symm, arranged⟩
  · exact sortsByPriority_sortLinks links

theorem sample_get (loaded : Loaded sampleCrates sampleRoot [] index) (version : VersionItem)
    {preferred : List (IdxLinkItem Nat)}
    (ties : preferred.Perm [sampleLinkItem ['s'], sampleLinkItem ['t']]) :
    Querier.get (sortPreferring preferred) (storeOf version index) [ruleEntry ['r'] sampleRule]
      sampleContext [['k']] .overlaidView false =
        some (nextKey (storeOf version index) false ['k'] preferred).toList := by
  have perm := sample_links loaded
  obtain ⟨links, found⟩ : ∃ links, index.linkStor.getLinkByRulePath ['r'] = some links := by
    cases found : index.linkStor.getLinkByRulePath ['r'] with
    | some links => exact ⟨links, rfl⟩
    | none => simp [itemsAt, found] at perm
  have either : links.Perm preferred := by
    simp only [itemsAt, found, Option.getD_some] at perm
    exact perm.trans ties.symm
  have many : links.length = 2 := either.length_eq.trans ties.length_eq
  have holds : (ruleEntry ['r'] sampleRule).rule.eval sampleContext = some true := rfl
  have collected : collectActLinks (storeOf version index) sampleContext
      [ruleEntry ['r'] sampleRule] = some links := by
    simp only [collectActLinks, holds, if_true]
    simp [storeOf, ruleEntry, found]
  have sorted : sortPreferring preferred compareLinks links = preferred := if_pos either
  simp only [Querier.get, collected, many, OfNat.ofNat_ne_zero, if_false, fetchResByOverlaidView, sorted]
  cases shown : nextKey (storeOf version index) false ['k'] preferred <;> simp [shown]

/-- The sort decides which of the two resources is shown. -/
theorem sample_shows (loaded : Loaded sampleCrates sampleRoot [] index) (version : VersionItem) :
    Querier.get (sortPreferring [sampleLinkItem ['s'], sampleLinkItem ['t']]) (storeOf version index)
      [ruleEntry ['r'] sampleRule] sampleContext [['k']] .overlaidView false =
        some [⟨none, samplePair 'v'⟩] ∧
    Querier.get (sortPreferring [sampleLinkItem ['t'], sampleLinkItem ['s']]) (storeOf version index)
      [ruleEntry ['r'] sampleRule] sampleContext [['k']] .overlaidView false =
        some [⟨none, samplePair 'w'⟩] := by
  obtain ⟨resS, resT⟩ := sample_reses loaded
  constructor
  · rw [sample_get loaded version (.refl _)]
    unfold nextKey
    simp only [storeOf, sampleLinkItem, resS]
    rfl
  · rw [sample_get loaded version (.swap _ _ _)]
    unfold nextKey
    simp only [storeOf, sampleLinkItem, resT]
    rfl

theorem sortsByPriority_sample :
    SortsByPriority (sortPreferring [sampleLinkItem ['s'], sampleLinkItem ['t']]) ∧
    SortsByPriority (sortPreferring [sampleLinkItem ['t'], sampleLinkItem ['s']]) :=
  ⟨sortsByPriority_sortPreferring _ (by simp [Ranked.Before, sampleLinkItem]),
    sortsByPriority_sortPreferring _ (by simp [Ranked.Before, sampleLinkItem])⟩

/-- Two sorts that differ in what they do with ties show different values of the
same files. -/
theorem get_overlaidView_depends_on_ties : ∃ hash, Serves sampleBackend sampleVersion sampleRoot hash ∧
    ∃ fuel index rules, ∃ sort sort' : SortUnstableBy Nat,
      IndexBuilder.load sampleCrates sampleBackend fuel (namespaceText []) sampleVersion =
        some (.ok index) ∧
      index.ruleStor.Iteration rules ∧ SortsByPriority sort ∧ SortsByPriority sort' ∧
      ∃ results results',
        Querier.get sort (storeOf sampleVersion index) rules sampleContext [['k']] .overlaidView false =
          some results ∧
        Querier.get sort' (storeOf sampleVersion index) rules sampleContext [['k']] .overlaidView false =
          some results' ∧
        results.map CFGResult.value ≠ results'.map CFGResult.value := by
  obtain ⟨hash, serves⟩ := sample_serves
  obtain ⟨fuel, index, loads⟩ := sample_loads serves
  have loaded := load_loaded serves loads
  obtain ⟨first, second⟩ := sample_shows loaded sampleVersion
  refine ⟨hash, serves, fuel, index, _, _, _, loads, sample_iteration loaded,
    sortsByPriority_sample.1, sortsByPriority_sample.2, _, _, first, second, ?_⟩
  simp [samplePair]

theorem get_overlaidView_sameFiles_sample : ∃ fuel index,
    IndexBuilder.load sampleCrates sampleBackend fuel (namespaceText []) sampleVersion =
      some (.ok index) ∧
    ∃ entry entry' : Str → Option (CFGResult Nat),
      [⟨none, samplePair 'v'⟩] = [['k']].filterMap entry ∧
      [⟨none, samplePair 'w'⟩] = [['k']].filterMap entry' ∧
      ∀ key, (entry key).isSome = (entry' key).isSome ∧
        (Agreed (storeOf sampleVersion index) sampleContext key →
          (entry key).map CFGResult.value = (entry' key).map CFGResult.value) := by
  obtain ⟨hash, serves⟩ := sample_serves
  obtain ⟨fuel, index, loads⟩ := sample_loads serves
  have loaded := load_loaded serves loads
  have order := sample_iteration loaded
  obtain ⟨first, second⟩ := sample_shows loaded sampleVersion
  have whole := get_overlaidView_sameFiles sampleCrates [] sampleBackend sampleBackend sampleVersion
    sampleVersion sampleRoot sampleRoot hash hash serves serves (fun _ _ => .refl _) fuel fuel index index
    loads loads _ _ sortsByPriority_sample.1 sortsByPriority_sample.2 _ _ order order sampleContext
    [['k']] false
  exact ⟨fuel, index, loads, whole.2 _ _ first second⟩

end Sample

end Eafcc.CfgCenter
