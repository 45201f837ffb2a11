import Eafcc.CfgCenter.AllLinked

namespace Eafcc.CfgCenter

open Eafcc.RuleEngine Eafcc.Model Eafcc.Storage Eafcc.Ffi

/-! # What the files of a namespace say

An answer in terms of the files alone, without an index.  A link file whose rule
file holds for the tags of a client offers the pairs of the resource files that it
refers to.  Of the offers for a key those of the greatest priority count, and a
negative one among them withdraws the key.
-/

variable {Pri : Type}

structure Offer (Pri : Type) where
  pri : Pri
  isNeg : Bool
  pair : KeyValuePair

/-- The file at a path below one of the directories of a namespace decodes to an object. -/
def FileOf {Obj : Type} (decode : Bytes → Except DataLoaderError Obj) (root : Node) (top : FileName)
    (ns path : List FileName) (obj : Obj) : Prop :=
  ∃ bytes, root.find (top :: ns ++ path) = some (.file (.ok bytes)) ∧ decode bytes = .ok obj

inductive Offers (crates : Crates Pri) (root : Node) (ns : List FileName) (tags : MatchContext)
    (key : Str) : Offer Pri → Prop
  | link {rulePath linkPath resPath : List FileName} {ruleObj : Rule} {linkObj : Link Pri} {resObj : Res}
      {reference : Str} {pair : KeyValuePair} :
      FileOf (Rule.loadFromSlice crates) root rulesName ns rulePath ruleObj →
      FileOf (Link.loadFromSlice crates) root linksName ns linkPath linkObj →
      FileOf (Res.loadFromSlice crates) root resesName ns resPath resObj →
      removePathTypePrefix linkObj.spec.rule = some (relativePath (ns ++ rulePath)) →
      ruleObj.spec.rule.Holds tags →
      reference ∈ linkObj.spec.reses →
      removePathTypePrefix reference = some (relativePath (ns ++ resPath)) →
      firstPair key (resEntry (relativePath (ns ++ resPath)) resObj).data = some pair →
      Offers crates root ns tags key { pri := linkObj.spec.pri, isNeg := linkObj.spec.isNeg, pair }

/-- A link file whose rule file holds for the tags refers to a resource file with the pairs
`data`.  The item is the one that a reason shows. -/
inductive Linked (crates : Crates Pri) (root : Node) (ns : List FileName) (tags : MatchContext) :
    IdxLinkItem Pri → List KeyValuePair → Prop
  | link {rulePath linkPath resPath : List FileName} {ruleObj : Rule} {linkObj : Link Pri} {resObj : Res}
      {reference : Str} :
      FileOf (Rule.loadFromSlice crates) root rulesName ns rulePath ruleObj →
      FileOf (Link.loadFromSlice crates) root linksName ns linkPath linkObj →
      FileOf (Res.loadFromSlice crates) root resesName ns resPath resObj →
      removePathTypePrefix linkObj.spec.rule = some (relativePath (ns ++ rulePath)) →
      ruleObj.spec.rule.Holds tags →
      reference ∈ linkObj.spec.reses →
      removePathTypePrefix reference = some (relativePath (ns ++ resPath)) →
      Linked crates root ns tags
        { pri := linkObj.spec.pri, isNeg := linkObj.spec.isNeg, rulePath := linkObj.spec.rule
          absResPath := relativePath (ns ++ resPath), linkPath := relativePath (ns ++ linkPath) }
        (resEntry (relativePath (ns ++ resPath)) resObj).data

inductive Answer [LinearOrder Pri] (offers : Offer Pri → Prop) : Option KeyValuePair → Prop
  | shown {offer : Offer Pri} :
      Ranked.Top Offer.pri offers offer →
      (∀ other, Ranked.Top Offer.pri offers other → other.isNeg = false) → Answer offers (some offer.pair)
  | withdrawn {offer : Offer Pri} :
      Ranked.Top Offer.pri offers offer → offer.isNeg = true → Answer offers none
  | absent : (∀ offer, ¬ offers offer) → Answer offers none

/-- What a query may return for a key.  A reason, where there are reasons, is one of a link
that applies. -/
inductive Told [LinearOrder Pri] (crates : Crates Pri) (root : Node) (ns : List FileName)
    (tags : MatchContext) (needExplain : Bool) (key : Str) : ViewMode → List (CFGResult Pri) → Prop
  | overlaid {entry : Option (CFGResult Pri)} :
      Answer (Offers crates root ns tags key) (entry.map CFGResult.value) →
      (∀ result, entry = some result → ∃ link data, Linked crates root ns tags link data ∧
        firstPair key data = some result.value ∧
        (∀ offer, Offers crates root ns tags key offer → offer.pri ≤ link.pri) ∧
        result = linkedEntry needExplain link result.value) →
      Told crates root ns tags needExplain key .overlaidView entry.toList
  | linked {results : List (CFGResult Pri)} :
      (∀ result, result ∈ results ↔ ∃ link data, Linked crates root ns tags link data ∧
        result.value ∈ data ∧ result.value.key = key ∧
        result = linkedEntry needExplain link result.value) →
      Told crates root ns tags needExplain key .allLinkedResView results

theorem offers_iff_linked {crates : Crates Pri} {root : Node} {ns : List FileName} {tags : MatchContext}
    {key : Str} (offer : Offer Pri) : Offers crates root ns tags key offer ↔ ∃ link data,
      Linked crates root ns tags link data ∧ firstPair key data = some offer.pair ∧
        link.pri = offer.pri ∧ link.isNeg = offer.isNeg := by
  constructor
  · intro offers
    cases offers with
    | link rule link res under holds member refers first =>
        exact ⟨_, _, .link rule link res under holds member refers, first, rfl, rfl⟩
  · rintro ⟨link, data, linked, first, samePri, sameSign⟩
    cases linked with
    | @link rulePath linkPath resPath ruleObj linkObj resObj reference rule link res under holds member
        refers =>
        obtain ⟨pri, isNeg, pair⟩ := offer
        obtain rfl : linkObj.spec.pri = pri := samePri
        obtain rfl : linkObj.spec.isNeg = isNeg := sameSign
        exact .link rule link res under holds member refers first

/-! ## Loaded indices -/

variable {crates : Crates Pri} {root : Node} {ns : List FileName} {index : CFGIndex Pri}
  {version : VersionItem} {tags : MatchContext} {key : Str} {needExplain : Bool}

/-- The link item makes the offer. -/
def Makes (store : MemStorage Pri) (key : Str) (link : IdxLinkItem Pri) (offer : Offer Pri) : Prop :=
  heldPair store key link = some offer.pair ∧ link.pri = offer.pri ∧ link.isNeg = offer.isNeg

theorem Loaded.eval_iff (loaded : Loaded crates root ns index) {path : Str} {item : IdxRuleItem}
    (stored : index.ruleStor.storage.lookup path = some item) :
    item.rule.eval tags = some true ↔ item.rule.Holds tags := by
  obtain ⟨names, bytes, ruleObj, -, decoded, -, rfl⟩ := (loaded.rules path item).mp stored
  obtain ⟨ruleStr, parsed⟩ := Rule.loadFromSlice_parsed decoded
  obtain ⟨value, evaluated, reading⟩ : Condition.Reads tags (ruleEntry path ruleObj).rule :=
    (Parser.Grammar.doParse_result parsed).2.reads
  rw [evaluated, Option.some.injEq]
  exact reading

/-- An item comes from a link file, which refers to the item's resource. -/
theorem Loaded.mem_itemsAt (loaded : Loaded crates root ns index) {rulePath : Str} {link : IdxLinkItem Pri} :
    link ∈ itemsAt index.linkStor rulePath ↔ ∃ path linkObj,
      FileOf (Link.loadFromSlice crates) root linksName ns path linkObj ∧
      removePathTypePrefix linkObj.spec.rule = some rulePath ∧
      link ∈ itemsOf (relativePath (ns ++ path)) linkObj := by
  obtain ⟨node, found, -⟩ := loaded.linksRead.1
  rw [(loaded.links rulePath).mem_iff, List.mem_flatMap]
  constructor
  · rintro ⟨file, listed, member⟩
    obtain ⟨path, content⟩ := file
    cases content with
    | error reason => cases member
    | ok bytes =>
        have located := (mem_filesAt ⟨node, found⟩ path).mp listed
        obtain ⟨_, same, linkObj, decoded, -⟩ := loaded.linksRead.2 path _ located
        cases same
        simp only [linkEntries, decoded] at member
        split at member
        · rename_i under
          exact ⟨path, linkObj, ⟨bytes, located, decoded⟩, under, member⟩
        · cases member
  · rintro ⟨path, linkObj, ⟨bytes, located, decoded⟩, under, member⟩
    refine ⟨(path, .ok bytes), (mem_filesAt ⟨node, found⟩ path).mpr located, ?_⟩
    rwa [linkEntries_decoded decoded under]

/-- The references of a link file that was loaded can be sliced. -/
theorem Loaded.reference (loaded : Loaded crates root ns index) {path : List FileName} {linkObj : Link Pri}
    (file : FileOf (Link.loadFromSlice crates) root linksName ns path linkObj) {reference : Str}
    (member : reference ∈ linkObj.spec.reses) :
    removePathTypePrefix reference = some (withoutPrefix reference) := by
  obtain ⟨bytes, located, decoded⟩ := file
  obtain ⟨_, same, linkObj', decoded', sliceable⟩ := loaded.linksRead.2 path _ located
  cases same
  rw [decoded, Except.ok.injEq] at decoded'
  subst decoded'
  obtain ⟨rest, sliced⟩ := Option.ne_none_iff_exists'.mp (sliceable reference (List.mem_cons_of_mem _ member))
  rw [withoutPrefix, sliced, Option.getD_some]

/-- The links that apply are the active ones of the index whose resource was loaded. -/
theorem Loaded.linked_iff (loaded : Loaded crates root ns index) {link : IdxLinkItem Pri}
    {data : List KeyValuePair} : Linked crates root ns tags link data ↔
      Active (storeOf version index) tags link ∧
        ∃ res, index.resStor.getResByPath link.absResPath = some res ∧ res.data = data := by
  constructor
  · intro linked
    cases linked with
    | @link rulePath linkPath resPath ruleObj linkObj resObj reference rule link res under holds member
        refers =>
        obtain ⟨bytes, located, decoded⟩ := rule
        have stored := (loaded.rules _ _).mpr ⟨rulePath, bytes, ruleObj, located, decoded, rfl, rfl⟩
        obtain ⟨resBytes, resLocated, resDecoded⟩ := res
        have kept := (loaded.reses _ _).mpr ⟨resPath, resBytes, resObj, resLocated, resDecoded, rfl, rfl⟩
        have sliced : withoutPrefix reference = relativePath (ns ++ resPath) := by
          rw [withoutPrefix, refers, Option.getD_some]
        rw [← sliced] at kept ⊢
        have listed := loaded.mem_itemsAt.mpr ⟨linkPath, linkObj, link, under, List.mem_map_of_mem member⟩
        exact ⟨(active_iff_itemsAt _).mpr ⟨_, _, stored, (loaded.eval_iff stored).mpr holds, listed⟩,
          _, kept, rfl⟩
  · rintro ⟨active, res, kept, rfl⟩
    obtain ⟨path, item, stored, holds, listed⟩ := (active_iff_itemsAt link).mp active
    obtain ⟨linkPath, linkObj, file, under, member⟩ := loaded.mem_itemsAt.mp listed
    obtain ⟨reference, refers, rfl⟩ := List.mem_map.mp member
    have reading := (loaded.eval_iff stored).mp holds
    obtain ⟨rulePath, bytes, ruleObj, located, decoded, rfl, rfl⟩ := (loaded.rules path item).mp stored
    obtain ⟨resPath, resBytes, resObj, resLocated, resDecoded, same, rfl⟩ := (loaded.reses _ _).mp kept
    have sliced := loaded.reference file refers
    have same : withoutPrefix reference = relativePath (ns ++ resPath) := same
    rw [same] at sliced ⊢
    exact .link ⟨bytes, located, decoded⟩ file ⟨resBytes, resLocated, resDecoded⟩ under reading refers sliced

/-- The offers of the files are those that the active links of the index make. -/
theorem Loaded.offers_iff (loaded : Loaded crates root ns index) (offer : Offer Pri) :
    Offers crates root ns tags key offer ↔
      ∃ link, Active (storeOf version index) tags link ∧ Makes (storeOf version index) key link offer := by
  rw [offers_iff_linked]
  constructor
  · rintro ⟨link, data, linked, first, same⟩
    obtain ⟨active, res, kept, rfl⟩ := loaded.linked_iff.mp linked
    exact ⟨link, active, Option.bind_eq_some_iff.mpr ⟨res, kept, first⟩, same⟩
  · rintro ⟨link, active, held, same⟩
    obtain ⟨res, kept, first⟩ := Option.bind_eq_some_iff.mp held
    exact ⟨link, _, loaded.linked_iff.mpr ⟨active, res, kept, rfl⟩, first, same⟩

variable [LinearOrder Pri]

/-- What the overlaid view has to return for a loaded index is the answer of the files. -/
theorem Loaded.answer (loaded : Loaded crates root ns index) {entry : Option (CFGResult Pri)}
    (fulfils : OverlayEntry (storeOf version index) tags needExplain key entry) :
    Answer (Offers crates root ns tags key) (entry.map CFGResult.value) := by
  have samePri : ∀ (link : IdxLinkItem Pri) (offer : Offer Pri),
      Makes (storeOf version index) key link offer → link.pri = offer.pri := fun _ _ makes => makes.2.1
  have offered : ∀ offer, Offers crates root ns tags key offer → ∃ link,
      (Active (storeOf version index) tags link ∧ heldPair (storeOf version index) key link ≠ none) ∧
        Makes (storeOf version index) key link offer := by
    intro offer offers
    obtain ⟨link, active, makes⟩ := (loaded.offers_iff offer).mp offers
    exact ⟨link, ⟨active, by simp [makes.1]⟩, makes⟩
  have topmost : ∀ link pair, Topmost (storeOf version index) tags key link →
      heldPair (storeOf version index) key link = some pair →
      Ranked.Top Offer.pri (Offers crates root ns tags key) ⟨link.pri, link.isNeg, pair⟩ := by
    intro link pair top held
    have offers : Offers crates root ns tags key ⟨link.pri, link.isNeg, pair⟩ :=
      (loaded.offers_iff _).mpr ⟨link, top.1.1, held, rfl, rfl⟩
    exact Ranked.top_related samePri offered ⟨held, rfl, rfl⟩ offers top
  cases fulfils with
  | @shown link pair top held positive =>
      refine .shown (topmost link pair top held) fun other highest => ?_
      obtain ⟨made, holds, makes⟩ := offered other highest.1
      rw [← makes.2.2]
      apply positive
      refine ⟨holds, fun more has => ?_⟩
      obtain ⟨morePair, moreHeld⟩ := Option.ne_none_iff_exists'.mp has.2
      rw [makes.2.1]
      exact highest.2 ⟨more.pri, more.isNeg, morePair⟩
        ((loaded.offers_iff _).mpr ⟨more, has.1, moreHeld, rfl, rfl⟩)
  | @masked link top negative =>
      obtain ⟨pair, held⟩ := Option.ne_none_iff_exists'.mp top.1.2
      exact .withdrawn (topmost link pair top held) negative
  | absent missing =>
      refine .absent fun offer offers => ?_
      obtain ⟨link, holds, -⟩ := offered offer offers
      exact holds.2 (missing link holds.1)

variable {links : List (IdxLinkItem Pri)}

/-- The lookup of a key among the active links, the greatest priority first. -/
theorem Loaded.told_overlaid (loaded : Loaded crates root ns index)
    (arranged : links.Pairwise (Ranked.Before IdxLinkItem.pri IdxLinkItem.isNeg))
    (active : ∀ link, link ∈ links ↔ Active (storeOf version index) tags link) :
    Told crates root ns tags needExplain key .overlaidView
      (nextKey (storeOf version index) needExplain key links).toList := by
  have entry : OverlayEntry (storeOf version index) tags needExplain key
      (nextKey (storeOf version index) needExplain key links) := nextKey_overlayEntry arranged active
  refine .overlaid (loaded.answer entry) fun result shown => ?_
  rw [shown] at entry
  cases entry with
  | @shown link pair top held positive =>
      obtain ⟨res, kept, first⟩ := Option.bind_eq_some_iff.mp held
      refine ⟨link, _, loaded.linked_iff.mpr ⟨top.1.1, res, kept, rfl⟩, first, fun offer offers => ?_, rfl⟩
      obtain ⟨other, isActive, makes⟩ : ∃ other, Active (storeOf version index) tags other ∧
        Makes (storeOf version index) key other offer := (loaded.offers_iff offer).mp offers
      rw [← makes.2.1]
      exact top.2 other ⟨isActive, by simp [makes.1]⟩

theorem Loaded.told_linked (loaded : Loaded crates root ns index)
    (active : ∀ link, link ∈ links ↔ Active (storeOf version index) tags link) :
    Told crates root ns tags needExplain key .allLinkedResView
      (links.flatMap fun link =>
        (pairsAt (storeOf version index) key link).map (linkedEntry needExplain link)) := by
  refine .linked fun result => ?_
  rw [List.mem_flatMap]
  constructor
  · rintro ⟨link, listed, member⟩
    obtain ⟨pair, held, rfl⟩ := List.mem_map.mp member
    obtain ⟨res, kept, member, same⟩ := mem_pairsAt.mp held
    exact ⟨link, _, loaded.linked_iff.mpr ⟨(active link).mp listed, res, kept, rfl⟩, member, same, rfl⟩
  · rintro ⟨link, data, linked, member, same, whole⟩
    obtain ⟨isActive, res, kept, rfl⟩ : Active (storeOf version index) tags link ∧ ∃ res,
      index.resStor.getResByPath link.absResPath = some res ∧ res.data = data :=
        loaded.linked_iff.mp linked
    rw [whole]
    exact ⟨link, (active link).mpr isActive,
      List.mem_map_of_mem (mem_pairsAt.mpr ⟨res, kept, member, same⟩)⟩

/-- A query of a loaded index returns for its keys in turn what the files say. -/
theorem Loaded.get_told (loaded : Loaded crates root ns index) {sort : SortUnstableBy Pri}
    (sorts : SortsByPriority sort) {rules : List IdxRuleItem} (order : index.ruleStor.Iteration rules)
    (viewMode : ViewMode) : ∃ answer : Str → List (CFGResult Pri),
      (∀ keys, Querier.get sort (storeOf version index) rules tags keys viewMode needExplain =
        some (keys.flatMap answer)) ∧
      ∀ key, Told crates root ns tags needExplain key viewMode (answer key) := by
  have order : (storeOf version index).indices.ruleStor.Iteration rules := order
  obtain ⟨links, collected⟩ : ∃ links, collectActLinks (storeOf version index) tags rules = some links := by
    refine Option.ne_none_iff_exists'.mp fun panics => ?_
    obtain ⟨path, item, stored, panics⟩ := (collectActLinks_panics_iff order).mp panics
    exact loaded.evaluates stored panics
  have active := mem_collectActLinks_iff_active order collected
  refine ⟨entriesOf sort (storeOf version index) links viewMode needExplain, fun keys => ?_, fun key => ?_⟩
  · rw [get_eq, collected, Option.map_some]
  · cases viewMode with
    | overlaidView =>
        obtain ⟨perm, arranged⟩ := sorts links
        rw [entriesOf_overlaid sorts]
        exact loaded.told_overlaid arranged fun link => perm.mem_iff.trans (active link)
    | allLinkedResView =>
        rw [entriesOf_linked]
        exact loaded.told_linked active

end Eafcc.CfgCenter
