import Eafcc.CfgCenter.Determinism

namespace Eafcc.CfgCenter

open Eafcc.RuleEngine Eafcc.Model Eafcc.Storage

/-! # What one more link changes

Configuration is rolled out by adding a link file.  Its link counts for a key
only where its rule holds and one of its resources has the key.  There it
is outranked, or replaces what was shown, or ties with it.
-/

variable {Pri : Type} {crates : Crates Pri} {ns : List FileName} {root root' : Node}
  {index index' : CFGIndex Pri} {whoami : MatchContext} {key : Str} {needExplain : Bool}

/-- The second tree has one link file more, and else the same files. -/
structure LinkAdded (ns : List FileName) (root root' : Node) (path : List FileName) (bytes : Bytes) :
    Prop where
  rules : (filesAt root (rulesName :: ns)).Perm (filesAt root' (rulesName :: ns))
  links : (filesAt root' (linksName :: ns)).Perm ((path, .ok bytes) :: filesAt root (linksName :: ns))
  reses : (filesAt root (resesName :: ns)).Perm (filesAt root' (resesName :: ns))

/-! ## Indices -/

/-- The second index has `more` link items, and else the same content. -/
structure LinksGained (index index' : CFGIndex Pri) (more : Str → List (IdxLinkItem Pri)) : Prop where
  rules : ∀ key, index.ruleStor.storage.lookup key = index'.ruleStor.storage.lookup key
  reses : ∀ key, index.resStor.getResByPath key = index'.resStor.getResByPath key
  links : ∀ rulePath, (itemsAt index'.linkStor rulePath).Perm (more rulePath ++ itemsAt index.linkStor rulePath)

/-- The link item is among `more` under a rule that holds. -/
def Applies (index : CFGIndex Pri) (more : Str → List (IdxLinkItem Pri)) (whoami : MatchContext)
    (link : IdxLinkItem Pri) : Prop :=
  ∃ path item, index.ruleStor.storage.lookup path = some item ∧ item.rule.eval whoami = some true ∧
    link ∈ more path

theorem Loaded.linksGained {path : List FileName} {bytes : Bytes} (loaded : Loaded crates root ns index)
    (loaded' : Loaded crates root' ns index') (added : LinkAdded ns root root' path bytes) :
    LinksGained index index' fun rulePath => linkEntries crates ns rulePath (path, .ok bytes) where
  rules key := by
    apply Option.ext
    intro item
    obtain ⟨node, found, -⟩ := loaded.rulesRead.1
    obtain ⟨node', found', -⟩ := loaded'.rulesRead.1
    rw [loaded.rules, loaded'.rules]
    simp only [← mem_filesAt ⟨node, found⟩, ← mem_filesAt ⟨node', found'⟩, added.rules.mem_iff]
  reses key := by
    apply Option.ext
    intro res
    obtain ⟨node, found, -⟩ := loaded.resesRead.1
    obtain ⟨node', found', -⟩ := loaded'.resesRead.1
    rw [loaded.reses, loaded'.reses]
    simp only [← mem_filesAt ⟨node, found⟩, ← mem_filesAt ⟨node', found'⟩, added.reses.mem_iff]
  links rulePath := by
    have before := loaded.links rulePath
    have after := (loaded'.links rulePath).trans (added.links.flatMap_right _)
    rw [List.flatMap_cons] at after
    exact after.trans (before.symm.append_left _)

variable {version version' : VersionItem} {more : Str → List (IdxLinkItem Pri)}

theorem LinksGained.active_iff (gained : LinksGained index index' more) (link : IdxLinkItem Pri) :
    Active (storeOf version' index') whoami link ↔
      Active (storeOf version index) whoami link ∨ Applies index more whoami link := by
  simp only [active_iff_itemsAt, Applies, ← gained.rules, (gained.links _).mem_iff, List.mem_append]
  constructor
  · rintro ⟨path, item, stored, holds, new | old⟩
    · exact .inr ⟨path, item, stored, holds, new⟩
    · exact .inl ⟨path, item, stored, holds, old⟩
  · rintro (⟨path, item, stored, holds, old⟩ | ⟨path, item, stored, holds, new⟩)
    · exact ⟨path, item, stored, holds, .inr old⟩
    · exact ⟨path, item, stored, holds, .inl new⟩

theorem LinksGained.heldPair_eq (gained : LinksGained index index' more) (link : IdxLinkItem Pri) :
    heldPair (storeOf version' index') key link = heldPair (storeOf version index) key link := by
  simp only [heldPair, storeOf, gained.reses]

/-! ## Entries -/

/-- The items of a link file have its priority and sign. -/
theorem linkEntries_of_link {path : List FileName} {bytes : Bytes} {linkObj : Link Pri} {rulePath : Str}
    {link : IdxLinkItem Pri} (decoded : Link.loadFromSlice crates bytes = .ok linkObj)
    (member : link ∈ linkEntries crates ns rulePath (path, .ok bytes)) :
    link.pri = linkObj.spec.pri ∧ link.isNeg = linkObj.spec.isNeg := by
  simp only [linkEntries, decoded] at member
  split at member
  · obtain ⟨resPath, -, rfl⟩ := List.mem_map.mp member
    exact ⟨rfl, rfl⟩
  · cases member

variable [LinearOrder Pri] {entry entry' : Option (CFGResult Pri)} {store store' : MemStorage Pri}

theorem OverlayEntry.isSome_iff (fulfils : OverlayEntry store whoami needExplain key entry) :
    entry.isSome = true ↔ (∃ link, Topmost store whoami key link) ∧
      ∀ link, Topmost store whoami key link → link.isNeg = false := by
  cases fulfils with
  | shown topmost held positive => exact ⟨fun _ => ⟨⟨_, topmost⟩, positive⟩, fun _ => rfl⟩
  | masked topmost negative =>
      simp only [Option.isSome_none, Bool.false_eq_true, false_iff]
      rintro ⟨-, positive⟩
      simp [positive _ topmost] at negative
  | absent missing =>
      simp only [Option.isSome_none, Bool.false_eq_true, false_iff]
      rintro ⟨⟨link, topmost⟩, -⟩
      exact topmost.1.2 (missing link topmost.1.1)

theorem OverlayEntry.eq_of_isSome (fulfils : OverlayEntry store whoami needExplain key entry)
    (isShown : entry.isSome = true) : ∃ link pair, Topmost store whoami key link ∧
      heldPair store key link = some pair ∧
      entry = some { reason := if needExplain then some link else none, value := pair } := by
  cases fulfils with
  | shown topmost held positive => exact ⟨_, _, topmost, held, rfl⟩
  | masked topmost negative => cases isShown
  | absent missing => cases isShown

/-- Two runs show a key alike where its topmost links are the same, and each of them shows
one of these links. -/
theorem OverlayEntry.alike (fulfils : OverlayEntry store whoami needExplain key entry)
    (fulfils' : OverlayEntry store' whoami needExplain key entry')
    (held : ∀ link, heldPair store' key link = heldPair store key link)
    (top : ∀ link, Topmost store' whoami key link ↔ Topmost store whoami key link) :
    entry'.isSome = entry.isSome ∧
    (Agreed store whoami key → entry'.map CFGResult.value = entry.map CFGResult.value) ∧
    ∀ result, entry' = some result →
      ∃ link, Topmost store whoami key link ∧ heldPair store key link = some result.value := by
  have same : entry'.isSome = entry.isSome := by
    rw [Bool.eq_iff_iff, fulfils'.isSome_iff, fulfils.isSome_iff]
    simp only [top]
  refine ⟨same, fun agreed => ?_, fun result returned => ?_⟩
  rotate_left
  · obtain ⟨link, pair, topmost, has, rfl⟩ := fulfils'.eq_of_isSome (by simp [returned])
    cases returned
    exact ⟨link, (top link).mp topmost, (held link).symm.trans has⟩
  cases shown : entry.isSome with
  | false =>
      have before : entry = none := Option.not_isSome_iff_eq_none.mp (by simp [shown])
      have after : entry' = none := Option.not_isSome_iff_eq_none.mp (by simp [same, shown])
      rw [before, after]
  | true =>
      obtain ⟨link, pair, topmost, has, rfl⟩ := fulfils.eq_of_isSome shown
      obtain ⟨link', pair', topmost', has', rfl⟩ := fulfils'.eq_of_isSome (same.trans shown)
      have both := agreed link link' topmost ((top link').mp topmost')
      rw [has, ← held, has', Option.some.injEq] at both
      simp [both]

theorem OverlayEntry.eq_none_of_negative (fulfils : OverlayEntry store whoami needExplain key entry)
    {link : IdxLinkItem Pri} (top : Topmost store whoami key link) (negative : link.isNeg = true) : entry = none := by
  apply Option.not_isSome_iff_eq_none.mp
  rw [fulfils.isSome_iff]
  rintro ⟨-, positive⟩
  rw [positive link top] at negative
  cases negative

/-- An active link that holds the key. -/
def Holder (store : MemStorage Pri) (whoami : MatchContext) (key : Str) (link : IdxLinkItem Pri) : Prop :=
  Active store whoami link ∧ heldPair store key link ≠ none

/-- What a link of `spec` does to a key, where `brings` are those of its items that
apply and hold the key. -/
structure Effect (store : MemStorage Pri) (whoami : MatchContext) (needExplain : Bool) (key : Str)
    (spec : LinkSpec Pri) (brings : IdxLinkItem Pri → Prop) (entry entry' : Option (CFGResult Pri)) :
    Prop where
  outranked : ((∃ link, brings link) → ∃ link, Holder store whoami key link ∧ spec.pri < link.pri) →
    entry'.isSome = entry.isSome ∧
    (Agreed store whoami key → entry'.map CFGResult.value = entry.map CFGResult.value) ∧
    ∀ result, entry' = some result →
      ∃ link, Topmost store whoami key link ∧ heldPair store key link = some result.value
  hides : spec.isNeg = true → (∃ link, brings link) →
    (∀ link, Holder store whoami key link → link.pri ≤ spec.pri) → entry' = none
  replaces : spec.isNeg = false → (∃ link, brings link) →
    (∀ link, Holder store whoami key link → link.pri < spec.pri) →
    ∃ link pair, brings link ∧ heldPair store key link = some pair ∧
      entry' = some { reason := if needExplain then some link else none, value := pair }
  ties : spec.isNeg = false → (∃ link, brings link) →
    (∀ link, Holder store whoami key link → link.pri ≤ spec.pri) →
    (∃ link, Holder store whoami key link ∧ link.pri = spec.pri) →
    entry'.isSome = entry.isSome ∧ ∀ result, entry' = some result →
      ∃ link, (Topmost store whoami key link ∨ brings link) ∧
        heldPair store key link = some result.value

section Groups

variable {spec : LinkSpec Pri} {brings : IdxLinkItem Pri → Prop}

/-- The links of the second store are those of the first and one group of a
priority and a sign. -/
theorem effect_of_entries (fulfils : OverlayEntry store whoami needExplain key entry)
    (fulfils' : OverlayEntry store' whoami needExplain key entry')
    (held : ∀ link, heldPair store' key link = heldPair store key link)
    (joined : ∀ link, Holder store' whoami key link ↔ Holder store whoami key link ∨ brings link)
    (level : ∀ link, brings link → link.pri = spec.pri)
    (sign : ∀ link, brings link → link.isNeg = spec.isNeg) :
    Effect store whoami needExplain key spec brings entry entry' := by
  have top : ∀ link, Topmost store' whoami key link ↔ Ranked.Top IdxLinkItem.pri
      (fun link => Holder store whoami key link ∨ brings link) link :=
    fun link => Ranked.top_congr joined
  constructor
  · intro outranked
    apply fulfils.alike fulfils' held
    intro link
    rw [top]
    exact Ranked.top_or_outranked level outranked
  · intro negative some highest
    obtain ⟨link, brought⟩ := some
    have topmost : Topmost store' whoami key link := by
      refine (top link).mpr (Ranked.top_or_iff.mpr (.inr ⟨⟨brought, fun other also => ?_⟩, fun other has => ?_⟩))
      · rw [level other also, level link brought]
      · rw [level link brought]
        exact highest other has
    exact fulfils'.eq_none_of_negative topmost ((sign link brought).trans negative)
  · intro positive some leads
    have topmost : ∀ link, Topmost store' whoami key link ↔ brings link := by
      intro link
      rw [top]
      exact Ranked.top_or_leads level some leads
    have isShown : entry'.isSome = true := by
      refine fulfils'.isSome_iff.mpr ⟨?_, fun link isTop => ?_⟩
      · obtain ⟨link, brought⟩ := some
        exact ⟨link, (topmost link).mpr brought⟩
      · rw [sign link ((topmost link).mp isTop), positive]
    obtain ⟨link, pair, isTop, has, rfl⟩ := fulfils'.eq_of_isSome isShown
    rw [held] at has
    exact ⟨link, pair, (topmost link).mp isTop, has, rfl⟩
  · intro positive some highest reached
    have topmost : ∀ link, Topmost store' whoami key link ↔ Topmost store whoami key link ∨ brings link := by
      intro link
      rw [top]
      exact Ranked.top_or_joins level highest reached
    refine ⟨?_, fun result shown => ?_⟩
    · rw [Bool.eq_iff_iff, fulfils'.isSome_iff, fulfils.isSome_iff]
      obtain ⟨first, holds, there⟩ := reached
      have old : Topmost store whoami key first :=
        ⟨holds, fun other has => (highest other has).trans there.ge⟩
      constructor
      · rintro ⟨-, unmasked⟩
        exact ⟨⟨first, old⟩, fun link isTop => unmasked link ((topmost link).mpr (.inl isTop))⟩
      · rintro ⟨-, unmasked⟩
        refine ⟨⟨first, (topmost first).mpr (.inl old)⟩, fun link isTop => ?_⟩
        rcases (topmost link).mp isTop with was | brought
        · exact unmasked link was
        · rw [sign link brought, positive]
    · obtain ⟨link, pair, isTop, has, same⟩ := fulfils'.eq_of_isSome (by simp [shown])
      rw [shown, Option.some.injEq] at same
      rw [held] at has
      exact ⟨link, (topmost link).mp isTop, by rw [same]; exact has⟩

end Groups

/-- Where none of the resources of an added link file holds a key under a rule that is
true, or a link of greater priority does, the key is shown or not as before: with the same
value if its topmost links agree on one, and else with that of one of them. Where the link
has the greatest priority its key shows one of its resources, or nothing if the link is
negative, and where it ties, a negative link hides the key and a positive one lets it
come from either. -/
theorem get_link_added (crates : Crates Pri) (ns : List FileName) (backend backend' : StorageBackend)
    (version version' : VersionItem) (root root' : Node) (hash hash' : List FileName → ObjectID)
    (serves : Serves backend version root hash) (serves' : Serves backend' version' root' hash')
    (path : List FileName) (bytes : Bytes) (added : LinkAdded ns root root' path bytes)
    (fuel fuel' : Nat) (index index' : CFGIndex Pri)
    (loaded : IndexBuilder.load crates backend fuel (namespaceText ns) version = some (.ok index))
    (loaded' : IndexBuilder.load crates backend' fuel' (namespaceText ns) version' = some (.ok index'))
    (sort sort' : SortUnstableBy Pri) (sorts : SortsByPriority sort) (sorts' : SortsByPriority sort')
    (rules rules' : List IdxRuleItem) (order : index.ruleStor.Iteration rules)
    (order' : index'.ruleStor.Iteration rules') (whoami : MatchContext) (keys : List Str)
    (needExplain : Bool) :
    (Querier.get sort (storeOf version index) rules whoami keys .overlaidView needExplain = none ↔
      Querier.get sort' (storeOf version' index') rules' whoami keys .overlaidView needExplain = none) ∧
    ∃ linkObj, Link.loadFromSlice crates bytes = .ok linkObj ∧ ∀ results results',
      Querier.get sort (storeOf version index) rules whoami keys .overlaidView needExplain =
        some results →
      Querier.get sort' (storeOf version' index') rules' whoami keys .overlaidView needExplain =
        some results' →
      ∃ entry entry' : Str → Option (CFGResult Pri),
        results = keys.filterMap entry ∧ results' = keys.filterMap entry' ∧
        ∀ key, Effect (storeOf version index) whoami needExplain key linkObj.spec
          (fun link => Applies index (fun rulePath => linkEntries crates ns rulePath (path, .ok bytes))
              whoami link ∧ heldPair (storeOf version index) key link ≠ none)
          (entry key) (entry' key) := by
  have whole' := load_loaded serves' loaded'
  have gained := (load_loaded serves loaded).linksGained whole' added
  obtain ⟨walkable, decodes⟩ := whole'.linksRead
  obtain ⟨node, found, -⟩ := walkable
  have located : root'.find (linksName :: ns ++ path) = some (.file (.ok bytes)) :=
    (mem_filesAt ⟨node, found⟩ path).mp (added.links.mem_iff.mpr List.mem_cons_self)
  obtain ⟨_, same, linkObj, decoded, -⟩ := decodes path _ located
  cases same
  refine ⟨?_, linkObj, decoded, fun results results' returned returned' => ?_⟩
  · rw [get_eq_none order, get_eq_none order']
    simp only [storeOf, gained.rules]
  · obtain ⟨links, arranged, active, rfl⟩ := get_eq_filterMap sorts order returned
    obtain ⟨links', arranged', active', rfl⟩ := get_eq_filterMap sorts' order' returned'
    refine ⟨_, _, rfl, rfl, fun key => effect_of_entries (nextKey_overlayEntry arranged active)
      (nextKey_overlayEntry arranged' active') (fun link => gained.heldPair_eq link) (fun link => ?_) ?_ ?_⟩
    · have held : heldPair (storeOf version' index') key link = heldPair (storeOf version index) key link :=
        gained.heldPair_eq link
      rw [Holder, Holder, gained.active_iff, held, or_and_right]
    · rintro link ⟨⟨rulePath, item, -, -, member⟩, -⟩
      exact (linkEntries_of_link decoded member).1
    · rintro link ⟨⟨rulePath, item, -, -, member⟩, -⟩
      exact (linkEntries_of_link decoded member).2

/-! ## The sample before its link -/

section Sample

variable {index : CFGIndex Nat}

theorem ruleFile_nodup : [ruleFile].Nodup := List.nodup_singleton _

theorem resFiles_nodup : [resFile, otherResFile].Nodup := by decide

def sampleBareRoot : Node :=
  .dir none ⟨[rulesName, linksName, resesName], directories_nodup⟩ fun top =>
    if top = rulesName then sampleDir ⟨[ruleFile], ruleFile_nodup⟩ fun _ => sampleRuleText
    else if top = linksName then sampleDir ⟨[], List.nodup_nil⟩ fun _ => []
    else sampleDir ⟨[resFile, otherResFile], resFiles_nodup⟩ fun name =>
      if name = resFile then sampleResText 'v' else sampleResText 'w'

def sampleBareSystem : FileSystem where
  root := .dir none ⟨[⟨['v'], plain_v⟩], nodup_v⟩ fun _ => sampleBareRoot
  cwd := []

def sampleBareBackend : StorageBackend := (⟨['/']⟩ : FilesystemBackend).toStorageBackend sampleBareSystem

theorem sampleBare_serves : ∃ hash, Serves sampleBareBackend sampleVersion sampleBareRoot hash :=
  ⟨_, FilesystemBackend.serves (fromUtf8_toUtf8 _)
    (rfl : sampleBareSystem.resolve (Path.join ['/'] ['v']) = .ok sampleBareRoot)⟩

theorem sampleBare_loads {backend : StorageBackend} {version : VersionItem} {hash : List FileName → ObjectID}
    (serves : Serves backend version sampleBareRoot hash) :
    ∃ fuel index, IndexBuilder.load sampleCrates backend fuel (namespaceText []) version =
      some (.ok index) := by
  apply (load_succeeds_iff sampleCrates serves).mpr
  refine ⟨readable_sampleDir rfl fun _ _ => ⟨_, sampleRule_decoded⟩,
    readable_sampleDir rfl fun _ listed => absurd listed List.not_mem_nil,
    readable_sampleDir rfl fun name _ => ?_⟩
  split
  · exact ⟨_, sampleRes_decoded.1⟩
  · exact ⟨_, sampleRes_decoded.2⟩

theorem sampleBare_added : LinkAdded [] sampleBareRoot sampleRoot [linkFile] (toUtf8 sampleLinkText) where
  rules := by
    have same : sampleBareRoot.find [rulesName] = sampleRoot.find [rulesName] := rfl
    simp [filesAt, same]
  links := by
    have before : filesAt sampleBareRoot [linksName] = [] := rfl
    have after : filesAt sampleRoot [linksName] = [([linkFile], .ok (toUtf8 sampleLinkText))] := rfl
    rw [before, after]
  reses := by
    have same : sampleBareRoot.find [resesName] = sampleRoot.find [resesName] := rfl
    simp [filesAt, same]

theorem sampleBare_get (loaded : Loaded sampleCrates sampleBareRoot [] index) (version : VersionItem)
    (sort : SortUnstableBy Nat) :
    Querier.get sort (storeOf version index) [ruleEntry ['r'] sampleRule] sampleContext [['k']]
      .overlaidView false = some [] := by
  have none_ : itemsAt index.linkStor ['r'] = [] := (loaded.links ['r']).eq_nil
  have holds : (ruleEntry ['r'] sampleRule).rule.eval sampleContext = some true := rfl
  have collected : collectActLinks (storeOf version index) sampleContext
      [ruleEntry ['r'] sampleRule] = some [] := by
    simp only [collectActLinks, holds, if_true]
    cases found : index.linkStor.getLinkByRulePath ['r'] with
    | none => simp [storeOf, ruleEntry, found]
    | some links =>
        rw [itemsAt, found, Option.getD_some] at none_
        simp [storeOf, ruleEntry, found, none_]
  simp [Querier.get, collected]

theorem get_link_added_sample : ∃ index : CFGIndex Nat, ∃ entry entry' : Str → Option (CFGResult Nat),
    [] = [['k']].filterMap entry ∧ [⟨none, samplePair 'v'⟩] = [['k']].filterMap entry' ∧
    ∀ key, Effect (storeOf sampleVersion index) sampleContext false key sampleLink.spec
      (fun link => Applies index
          (fun rulePath => linkEntries sampleCrates [] rulePath ([linkFile], .ok (toUtf8 sampleLinkText)))
          sampleContext link ∧ heldPair (storeOf sampleVersion index) key link ≠ none)
      (entry key) (entry' key) := by
  obtain ⟨hash, serves⟩ := sampleBare_serves
  obtain ⟨hash', serves'⟩ := sample_serves
  obtain ⟨fuel, index, loads⟩ := sampleBare_loads serves
  obtain ⟨fuel', index', loads'⟩ := sample_loads serves'
  have loaded := load_loaded serves loads
  have loaded' := load_loaded serves' loads'
  have order' := sample_iteration loaded'
  have order : index.ruleStor.Iteration [ruleEntry ['r'] sampleRule] := by
    have same : index.ruleStor.storage = index'.ruleStor.storage :=
      Finmap.ext_lookup (loaded.linksGained loaded' sampleBare_added).rules
    rwa [RuleIndex.Iteration, same]
  obtain ⟨-, linkObj, decoded, effects⟩ := get_link_added sampleCrates [] sampleBareBackend sampleBackend
    sampleVersion sampleVersion sampleBareRoot sampleRoot hash hash' serves serves' [linkFile]
    (toUtf8 sampleLinkText) sampleBare_added fuel fuel' index index' loads loads' _ _
    sortsByPriority_sample.1 sortsByPriority_sample.1 _ _ order order' sampleContext [['k']] false
  rw [sampleLink_decoded, Except.ok.injEq] at decoded
  subst decoded
  exact ⟨index, effects _ _ (sampleBare_get loaded _ _) (sample_shows loaded' _).1⟩

end Sample

end Eafcc.CfgCenter
