import Eafcc.CfgCenter.Loading

namespace Eafcc.CfgCenter

open Eafcc.RuleEngine Eafcc.Model Eafcc.Storage

/-! # How the references of links are resolved -/

variable {Pri : Type} {index index' : LinkIndex Pri} {call : Str × Link Pri}
  {calls : List (Str × Link Pri)} {rulePath reference : Str}

/-- The index after some calls of `add_link`, `none` where one of them panics. -/
def LinkIndex.addLinks (calls : List (Str × Link Pri)) (index : LinkIndex Pri) : Option (LinkIndex Pri) :=
  calls.foldlM (fun index call => index.addLink call.1 call.2) index

/-! ## What a reference names -/

/-- The type of a reference to a path. -/
def pathType : Str := "path:/".toList

/-- The path that a reference of this type names. -/
def pathOf (reference : Str) : Option Str :=
  if pathType <+: reference then some (reference.drop pathType.length) else none

/-- What a call has to file under a path: an item for each path among its resources, if
its rule is a reference to the path. -/
def namedItems (rulePath : Str) (call : Str × Link Pri) : List (IdxLinkItem Pri) :=
  if call.2.spec.rule = pathType ++ rulePath then
    (call.2.spec.reses.filterMap pathOf).map fun absResPath =>
      { pri := call.2.spec.pri, isNeg := call.2.spec.isNeg, rulePath := call.2.spec.rule, absResPath,
        linkPath := call.1 }
  else []

/-- Under every path stand, in the order of the calls, the items that name it. -/
def Faithful (calls : List (Str × Link Pri)) (index : LinkIndex Pri) : Prop :=
  ∀ rulePath, itemsAt index rulePath = calls.flatMap (namedItems rulePath)

/-- Every reference that the items of the link come from is one to a path. -/
def NamesPaths (linkObj : Link Pri) : Prop :=
  ∀ resPath ∈ linkObj.spec.reses, pathType <+: linkObj.spec.rule ∧ pathType <+: resPath

theorem removePathTypePrefix_pathType (path : Str) : removePathTypePrefix (pathType ++ path) = some path := by
  have whole : pathType ++ path = 'p' :: 'a' :: 't' :: 'h' :: ':' :: '/' :: path := rfl
  simp [whole, removePathTypePrefix, sliceFrom, Char.utf8Size]

theorem pathOf_eq_some (named : pathType <+: reference) : pathOf reference = some (withoutPrefix reference) := by
  obtain ⟨path, rfl⟩ := named
  rw [pathOf, if_pos (List.prefix_append _ _), List.drop_left, withoutPrefix, removePathTypePrefix_pathType]
  rfl

/-! ## What the calls file -/

/-- What a call files under a path. -/
def filedItems (rulePath : Str) (call : Str × Link Pri) : List (IdxLinkItem Pri) :=
  if removePathTypePrefix call.2.spec.rule = some rulePath then itemsOf call.1 call.2 else []

theorem addLink_eq_none (linkPath : Str) (linkObj : Link Pri) :
    index.addLink linkPath linkObj = none ↔ ¬ Sliceable linkObj := by
  constructor
  · intro panics sliceable
    obtain ⟨after, added⟩ := addLink_succeeds sliceable ⟨.empty, .empty, index⟩ linkPath
    simp [CFGIndex.addLink, panics] at added
  · intro short
    cases added : index.addLink linkPath linkObj with
    | none => rfl
    | some index' => exact absurd (addLink_eq_some added).1 short

theorem addLinks_returns_iff : (∃ index', LinkIndex.addLinks calls index = some index') ↔
    ∀ call ∈ calls, Sliceable call.2 := by
  induction calls generalizing index with
  | nil => simp [LinkIndex.addLinks]
  | cons call calls ih =>
      rw [List.forall_mem_cons]
      simp only [LinkIndex.addLinks, List.foldlM_cons, Option.bind_eq_bind]
      cases added : index.addLink call.1 call.2 with
      | none => simp [(addLink_eq_none call.1 call.2).mp added]
      | some next =>
          rw [and_iff_right (addLink_eq_some added).1, Option.bind_some]
          exact ih

theorem itemsAt_addLinks (added : LinkIndex.addLinks calls index = some index') (rulePath : Str) :
    itemsAt index' rulePath = itemsAt index rulePath ++ calls.flatMap (filedItems rulePath) := by
  induction calls generalizing index with
  | nil =>
      cases added
      simp
  | cons call calls ih =>
      simp only [LinkIndex.addLinks, List.foldlM_cons, Option.bind_eq_bind, Option.bind_eq_some_iff] at added
      obtain ⟨next, first, rest⟩ := added
      rw [ih rest, (addLink_eq_some first).2, List.append_assoc, List.flatMap_cons]
      rfl

/-! ## Where filing and naming agree -/

theorem namedItems_eq (names : NamesPaths call.2) : namedItems rulePath call = filedItems rulePath call := by
  unfold namedItems filedItems
  by_cases empty : call.2.spec.reses = []
  · simp [empty, itemsOf]
  · obtain ⟨first, rest, same⟩ := List.exists_cons_of_ne_nil empty
    obtain ⟨path, rule⟩ := (names first (by simp [same])).1
    have resolved : call.2.spec.reses.filterMap pathOf = call.2.spec.reses.map withoutPrefix := by
      rw [← List.filterMap_eq_map]
      apply List.filterMap_congr
      intro resPath member
      exact pathOf_eq_some (names resPath member).2
    simp only [← rule, removePathTypePrefix_pathType, List.append_cancel_left_eq, Option.some.injEq, resolved,
      itemsOf, List.map_map]
    rfl

/-- Naming gives no more items than filing. -/
theorem length_namedItems_le (rulePath : Str) (call : Str × Link Pri) :
    (namedItems rulePath call).length ≤ (filedItems rulePath call).length := by
  unfold namedItems filedItems
  split
  · rename_i rule
    rw [rule, removePathTypePrefix_pathType, if_pos rfl, itemsOf, List.length_map, List.length_map]
    exact List.length_filterMap_le _ _
  · exact Nat.zero_le _

theorem namesPaths_of_length (sliceable : Sliceable call.2)
    (same : (namedItems (withoutPrefix call.2.spec.rule) call).length =
      (filedItems (withoutPrefix call.2.spec.rule) call).length) : NamesPaths call.2 := by
  obtain ⟨path, sliced⟩ := Option.ne_none_iff_exists'.mp (sliceable call.2.spec.rule (by simp))
  have here : withoutPrefix call.2.spec.rule = path := by simp [withoutPrefix, sliced]
  rw [here, filedItems, if_pos sliced, itemsOf, List.length_map, namedItems] at same
  intro resPath member
  split at same
  · rename_i rule
    rw [List.length_map] at same
    have each := List.filterMap_length_eq_length.mp same resPath member
    refine ⟨rule ▸ List.prefix_append _ _, ?_⟩
    by_contra other
    simp [pathOf, other] at each
  · simp only [List.length_nil] at same
    rw [List.eq_nil_of_length_eq_zero same.symm] at member
    cases member

/-- Lists that are no longer one by one are equally long if they are so together. -/
theorem length_eq_of_flatMap {α β : Type} {f g : α → List β} {items : List α}
    (less : ∀ item ∈ items, (f item).length ≤ (g item).length)
    (same : (items.flatMap f).length = (items.flatMap g).length) :
    ∀ item ∈ items, (f item).length = (g item).length := by
  induction items with
  | nil => simp
  | cons item items ih =>
      obtain ⟨here, rest⟩ := List.forall_mem_cons.mp less
      have others : (items.flatMap f).length ≤ (items.flatMap g).length := by
        rw [List.length_flatMap, List.length_flatMap]
        exact List.sum_le_sum rest
      simp only [List.flatMap_cons, List.length_append] at same
      rw [List.forall_mem_cons]
      exact ⟨by omega, ih rest (by omega)⟩

/-- Calls return exactly if every reference can be sliced, and then resolve all references
faithfully exactly if those that items come from are references to paths. -/
theorem addLinks_faithful_iff (calls : List (Str × Link Pri)) :
    ((∃ index, LinkIndex.addLinks calls .empty = some index) ↔ ∀ call ∈ calls, Sliceable call.2) ∧
    ∀ index, LinkIndex.addLinks calls .empty = some index →
      (Faithful calls index ↔ ∀ call ∈ calls, NamesPaths call.2) := by
  refine ⟨addLinks_returns_iff, fun index added => ?_⟩
  have sliceable := addLinks_returns_iff.mp ⟨index, added⟩
  have filed : ∀ rulePath, itemsAt index rulePath = calls.flatMap (filedItems rulePath) :=
    itemsAt_addLinks added
  constructor
  · intro faithful call member
    have same := (faithful (withoutPrefix call.2.spec.rule)).symm.trans (filed _)
    exact namesPaths_of_length (sliceable call member)
      (length_eq_of_flatMap (fun other _ => length_namedItems_le _ other) (congrArg List.length same) call member)
  · intro names rulePath
    rw [filed]
    exact List.flatMap_congr fun call member => (namedItems_eq (names call member)).symm

/-! ### A link that selects its rule by another type of reference -/

section Sample

def taggedLinkText : Str :=
  sampleText "Link".toList
    "\x7b\"pri\":1,\"is_neg\":false,\"ver\":\"\",\"rule\":\"tags:/r\",\"res\":[\"path:/s\"]\x7d".toList

def taggedLinkObject : RootCommon :=
  ⟨1, "Link".toList, sampleMeta, .object [("pri".toList, .number ['1']),
    ("is_neg".toList, .bool false), ("ver".toList, .string []), ("rule".toList, .string "tags:/r".toList),
    ("res".toList, .array [.string "path:/s".toList])]⟩

def taggedCrates : Crates Nat :=
  { sampleCrates with
    rootCommon := fun bytes =>
      match fromUtf8 bytes with
      | some text => if text = taggedLinkText then .ok taggedLinkObject else sampleJson text
      | none => .error "invalid unicode code point".toList }

def taggedLink : Link Nat := ⟨⟨[], []⟩, ⟨1, false, [], "tags:/r".toList, ["path:/s".toList]⟩⟩

theorem taggedCrates_rootCommon {bytes : Bytes} {text : Str} (decoded : fromUtf8 bytes = some text) :
    taggedCrates.rootCommon bytes = if text = taggedLinkText then .ok taggedLinkObject else sampleJson text := by
  simp only [taggedCrates, decoded]

theorem taggedLink_decoded : Link.loadFromSlice taggedCrates (toUtf8 taggedLinkText) = .ok taggedLink :=
  Link.loadFromSlice_eq_ok ((taggedCrates_rootCommon (fromUtf8_toUtf8 _)).trans (if_pos rfl)) rfl rfl rfl

/-- A link that is accepted and names no path is filed under one. -/
theorem tagged_reference_resolved :
    Link.loadFromSlice taggedCrates (toUtf8 taggedLinkText) = .ok taggedLink ∧
    ¬ pathType <+: taggedLink.spec.rule ∧
    ∃ index, LinkIndex.addLinks [(['l'], taggedLink)] .empty = some index ∧
      itemsAt index ['r'] = [⟨1, false, "tags:/r".toList, ['s'], ['l']⟩] ∧
      ¬ Faithful [(['l'], taggedLink)] index := by
  have filed : itemsAt (⟨(∅ : Finmap fun _ => _).insert ['r'] [⟨1, false, "tags:/r".toList, ['s'], ['l']⟩]⟩ :
      LinkIndex Nat) ['r'] = [⟨1, false, "tags:/r".toList, ['s'], ['l']⟩] := rfl
  refine ⟨taggedLink_decoded, by decide, _, rfl, filed, fun faithful => ?_⟩
  have unnamed : [(['l'], taggedLink)].flatMap (namedItems ['r']) = [] := by decide
  have items := (faithful ['r']).trans unnamed
  cases filed.symm.trans items

end Sample

end Eafcc.CfgCenter
