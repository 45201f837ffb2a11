import Eafcc.CfgCenter.CfgIndex
import Eafcc.Parser.Unescape
import Eafcc.Storage.Filesystem

namespace Eafcc.CfgCenter

open Eafcc.RuleEngine Eafcc.Model Eafcc.Storage

/-! # What loading a namespace puts into its index -/

variable {Pri : Type} {backend : StorageBackend} {version : VersionItem} {root : Node}
  {hash : List FileName → ObjectID} {ns : List FileName}

/-- With enough fuel a computation has one result. -/
def Terminates {α : Type} (run : Nat → Option α) : Prop :=
  ∃ enough result, ∀ fuel, enough ≤ fuel → run fuel = some result

/-! ## The walks of the builder -/

section Objects

variable {Obj : Type} {directory : FileName} {decode : Bytes → Except DataLoaderError Obj}
  {add : CFGIndex Pri → Str → Obj → Option (CFGIndex Pri)} {index index' : CFGIndex Pri}

/-- A file below a directory, with its content. -/
abbrev FileEntry := List FileName × Except IOError Bytes

/-- The objects of files added in turn. -/
def addAll (decode : Bytes → Except DataLoaderError Obj)
    (add : CFGIndex Pri → Str → Obj → Option (CFGIndex Pri)) (ns : List FileName) :
    List FileEntry → CFGIndex Pri → Option (CFGIndex Pri)
  | [], index => some index
  | (_, .error _) :: _, _ => none
  | (path, .ok bytes) :: files, index =>
      match decode bytes with
      | .error _ => none
      | .ok obj =>
          match add index (relativePath (ns ++ path)) obj with
          | none => none
          | some index => addAll decode add ns files index

theorem indexFile_neverPrunes : NeverPrunes (indexFile backend directory.text decode add) := by
  intro index node index' control returned
  unfold indexFile at returned
  split at returned
  · simp only [Prod.mk.injEq, Except.ok.injEq] at returned
    exact returned.2.symm
  · split at returned
    · simp [Rust.fail] at returned
    · split at returned
      · simp [Rust.fail] at returned
      · split at returned
        · simp [Rust.panics] at returned
        · split at returned
          · simp [Rust.panics] at returned
          · simp only [Prod.mk.injEq, Except.ok.injEq] at returned
            exact returned.2.symm

/-- Directories do not change the index. -/
theorem offerAll_indexFile_filter (items : List DirItem) (index : CFGIndex Pri) :
    offerAll (indexFile backend directory.text decode add) items index =
      offerAll (indexFile backend directory.text decode add)
        (items.filter fun node => !node.isDir) index := by
  induction items generalizing index with
  | nil => rfl
  | cons node items ih =>
      cases isDir : node.isDir with
      | true =>
          rw [List.filter_cons_of_neg (by simp [isDir])]
          simp only [offerAll, indexFile, isDir, if_true]
          exact ih index
      | false =>
          rw [List.filter_cons_of_pos (by simp [isDir])]
          simp only [offerAll]
          split
          · exact ih _
          · rfl

theorem offerAll_indexFile (serves : Serves backend version root hash) (files : List FileEntry)
    (located : ∀ path content, (path, content) ∈ files →
      root.find (directory :: ns ++ path) = some (.file content)) (index : CFGIndex Pri) :
    offerAll (indexFile backend directory.text decode add)
        (files.map fun (path, _) => fileItem hash (directory :: ns ++ path)) index =
      addAll decode add ns files index := by
  induction files generalizing index with
  | nil => rfl
  | cons file files ih =>
      obtain ⟨path, content⟩ := file
      have here : ∀ bytes, backend.getObjByHash (hash (directory :: ns ++ path)) = .ok bytes ↔
          content = .ok bytes :=
        fun bytes => serves.reads _ content bytes (by simp) (located path content (by simp))
      have rest := ih fun path content member => located path content (by simp [member])
      have stripped : Path.stripPrefix (filePath (directory :: ns ++ path)) [directory.text] =
          some (relativePath (ns ++ path)) := stripPrefix_filePath directory (ns ++ path)
      simp only [List.map_cons, offerAll, fileItem, indexFile, Bool.false_eq_true, if_false, stripped]
      cases content with
      | error cause =>
          cases read : backend.getObjByHash (hash (directory :: ns ++ path)) with
          | error reason => rfl
          | ok bytes => simpa using (here bytes).mp read
      | ok bytes =>
          rw [(here bytes).mpr rfl]
          cases decoded : decode bytes with
          | error reason => simp [addAll, decoded, Rust.fail]
          | ok obj =>
              cases added : add index (relativePath (ns ++ path)) obj with
              | none => simp [addAll, decoded, added, Rust.panics]
              | some index =>
                  simp only [addAll, decoded, added]
                  exact rest index

/-- The directory and all directories below it can be listed. -/
def Walkable (root : Node) (names : List FileName) : Prop :=
  ∃ node, root.find names = some node ∧ node.isDir = true ∧ node.Listable

theorem loadObjects_ok (serves : Serves backend version root hash) {fuel : Nat}
    (loaded : loadObjects backend directory.text decode add fuel (namespaceText ns) version index =
      some (.ok index')) :
    Walkable root (directory :: ns) ∧
    ∃ files, files.Perm (filesAt root (directory :: ns)) ∧
      addAll decode add ns files index = some index' := by
  simp only [loadObjects, namespaceText, join_namespace, serves.walkDir_eq,
    Option.map_eq_some_iff] at loaded
  obtain ⟨⟨final, result⟩, walked, finished⟩ := loaded
  have succeeded : result = .ok () ∧ final = index' := by
    cases result with
    | ok value => exact ⟨rfl, Except.ok.inj finished⟩
    | error failure => cases failure <;> simp [Rust.mapError, Except.map] at finished
  obtain ⟨rfl, rfl⟩ := succeeded
  obtain ⟨items, offered, reached⟩ := walked_of_walkLoop indexFile_neverPrunes walked
  obtain ⟨listable, perm⟩ := walked_files serves offered
    (.cons (leads_dirPath (directory :: ns)) .nil)
  obtain ⟨node, found, isDir, below⟩ := listable _ (List.mem_singleton.mpr rfl)
  refine ⟨⟨node, found, isDir, below⟩, ?_⟩
  rw [List.flatMap_singleton, fileItems] at perm
  let item (file : FileEntry) : DirItem := fileItem hash (directory :: ns ++ file.1)
  obtain ⟨files, named, ordered⟩ := List.perm_comp_forall₂ (r := fun node file => node = item file) perm
    (by rw [List.forall₂_map_left_iff]; exact List.forall₂_same.mpr fun _ _ => rfl)
  have same : (items.filter fun node => !node.isDir) = files.map item := by
    rwa [← List.forall₂_eq_eq_eq, List.forall₂_map_right_iff]
  have located : ∀ path content, (path, content) ∈ files →
      root.find (directory :: ns ++ path) = some (.file content) := by
    intro path content member
    exact (mem_filesAt ⟨node, found⟩ path).mp (ordered.mem_iff.mp member)
  rw [offerAll_indexFile_filter, same] at reached
  exact ⟨files, ordered, (offerAll_indexFile serves files located index).symm.trans reached⟩

theorem loadObjects_terminates (directory : FileName)
    (serves : Serves backend version root hash) (index : CFGIndex Pri) :
    Terminates fun fuel =>
      loadObjects backend directory.text decode add fuel (namespaceText ns) version index := by
  have walks : ∃ walk, walkLoop (indexFile backend directory.text decode add)
      (backend.listDir version) (([directory :: ns].map (dirsAt root)).sum + 1)
      [dirPath (directory :: ns)] index = some walk :=
    walkLoop_terminates serves (.cons (leads_dirPath (directory :: ns)) .nil) index _
      (Nat.lt_succ_self _)
  obtain ⟨walk, walked⟩ := walks
  refine ⟨([directory :: ns].map (dirsAt root)).sum + 1,
    (Rust.mapError .storageBackendError walk.2).map fun _ => walk.1, fun fuel enough => ?_⟩
  simp only [loadObjects, namespaceText, join_namespace, serves.walkDir_eq,
    walkLoop_le enough walked, Option.map_some]

theorem indexFile_succeeds (serves : Serves backend version root hash) {path : List FileName}
    {bytes : Bytes} {obj : Obj} (located : root.find (directory :: ns ++ path) = some (.file (.ok bytes)))
    (decoded : decode bytes = .ok obj) (addable : ∀ before path, ∃ after, add before path obj = some after)
    (index : CFGIndex Pri) :
    ∃ after, indexFile backend directory.text decode add index
      (fileItem hash (directory :: ns ++ path)) = (after, .ok .next) := by
  have read := (serves.reads _ _ bytes (by simp) located).mpr rfl
  have stripped : Path.stripPrefix (filePath (directory :: ns ++ path)) [directory.text] =
      some (relativePath (ns ++ path)) := stripPrefix_filePath directory (ns ++ path)
  obtain ⟨after, added⟩ := addable index (relativePath (ns ++ path))
  refine ⟨after, ?_⟩
  simp only [indexFile, fileItem, Bool.false_eq_true, if_false, read, decoded, stripped, added]

/-! ## Objects added under their paths -/

section Stored

variable {Entry : Type} {get : CFGIndex Pri → Str → Option Entry} {entry : Str → Obj → Entry}

/-- Adding an object sets the entry of its path and no other. -/
def Stores (add : CFGIndex Pri → Str → Obj → Option (CFGIndex Pri))
    (get : CFGIndex Pri → Str → Option Entry) (entry : Str → Obj → Entry) : Prop :=
  ∀ index path obj index', add index path obj = some index' →
    ∀ key, get index' key = if key = path then some (entry path obj) else get index key

theorem addAll_cons {path : List FileName} {content : Except IOError Bytes} {files : List FileEntry}
    (added : addAll decode add ns ((path, content) :: files) index = some index') :
    ∃ bytes obj next, content = .ok bytes ∧ decode bytes = .ok obj ∧
      add index (relativePath (ns ++ path)) obj = some next ∧
      addAll decode add ns files next = some index' := by
  cases content with
  | error cause => simp [addAll] at added
  | ok bytes =>
      cases decoded : decode bytes with
      | error reason => simp [addAll, decoded] at added
      | ok obj =>
          cases one : add index (relativePath (ns ++ path)) obj with
          | none => simp [addAll, decoded, one] at added
          | some next =>
              simp only [addAll, decoded, one] at added
              exact ⟨bytes, obj, next, rfl, decoded, one, added⟩

theorem addAll_decoded {files : List FileEntry}
    (added : addAll decode add ns files index = some index') :
    ∀ file ∈ files, ∃ bytes obj before after, file.2 = .ok bytes ∧ decode bytes = .ok obj ∧
      add before (relativePath (ns ++ file.1)) obj = some after := by
  induction files generalizing index with
  | nil => simp
  | cons file files ih =>
      obtain ⟨path, content⟩ := file
      obtain ⟨bytes, obj, next, read, decoded, one, rest⟩ := addAll_cons added
      intro file member
      rcases List.mem_cons.mp member with rfl | member
      · exact ⟨bytes, obj, index, next, read, decoded, one⟩
      · exact ih rest file member

/-- What the additions do not touch stays. -/
theorem addAll_frame {β : Type} {part : CFGIndex Pri → β}
    (keeps : ∀ index path obj index', add index path obj = some index' → part index' = part index)
    {files : List FileEntry} (added : addAll decode add ns files index = some index') :
    part index' = part index := by
  induction files generalizing index with
  | nil =>
      cases added
      rfl
  | cons file files ih =>
      obtain ⟨path, content⟩ := file
      obtain ⟨bytes, obj, next, -, -, one, rest⟩ := addAll_cons added
      exact (ih rest).trans (keeps _ _ _ _ one)

/-- Files that are added under different keys keep their entries, and there are no
others. -/
theorem addAll_placed {place : CFGIndex Pri → Str → Obj → Option (CFGIndex Pri)}
    (stores : Stores add get entry) (keyOf : List FileName → Str) {files : List FileEntry}
    (places : ∀ file ∈ files, ∀ index obj,
      place index (relativePath (ns ++ file.1)) obj = add index (keyOf file.1) obj)
    (distinct : (files.map fun file => keyOf file.1).Nodup)
    (added : addAll decode place ns files index = some index') (key : Str) :
    (∀ file ∈ files, keyOf file.1 = key → ∃ bytes obj, file.2 = .ok bytes ∧
      decode bytes = .ok obj ∧ get index' key = some (entry key obj)) ∧
    ((∀ file ∈ files, keyOf file.1 ≠ key) → get index' key = get index key) := by
  induction files generalizing index with
  | nil =>
      cases added
      simp
  | cons file files ih =>
      obtain ⟨path, content⟩ := file
      obtain ⟨bytes, obj, next, read, decoded, one, rest⟩ := addAll_cons added
      rw [places (path, content) (by simp)] at one
      simp only [List.map_cons, List.nodup_cons, List.mem_map, not_exists, not_and] at distinct
      obtain ⟨stored, kept⟩ := ih (fun file member => places file (by simp [member])) distinct.2 rest
      constructor
      · intro file member same
        rcases List.mem_cons.mp member with rfl | member
        · refine ⟨bytes, obj, read, decoded, ?_⟩
          rw [kept fun other later => same ▸ distinct.1 other later, stores _ _ _ _ one, if_pos same.symm,
            same]
        · exact stored file member same
      · intro absent
        rw [kept fun file member => absent file (by simp [member]), stores _ _ _ _ one,
          if_neg (Ne.symm (absent (path, content) (by simp)))]

/-- An entry for every file of a directory under its key, and no others. -/
theorem addAll_placed_iff {place : CFGIndex Pri → Str → Obj → Option (CFGIndex Pri)} {top : List FileName}
    (stores : Stores add get entry) (fresh : ∀ key, get index key = none) (keyOf : List FileName → Str)
    {files : List FileEntry} (present : ∃ node, root.find top = some node) (perm : files.Perm (filesAt root top))
    (places : ∀ file ∈ files, ∀ index obj,
      place index (relativePath (ns ++ file.1)) obj = add index (keyOf file.1) obj)
    (distinct : (files.map fun file => keyOf file.1).Nodup)
    (added : addAll decode place ns files index = some index') (key : Str) (value : Entry) :
    get index' key = some value ↔
      ∃ path bytes obj, root.find (top ++ path) = some (.file (.ok bytes)) ∧
        decode bytes = .ok obj ∧ key = keyOf path ∧ value = entry key obj := by
  obtain ⟨stored, kept⟩ := addAll_placed stores keyOf places distinct added key
  constructor
  · intro looked
    by_cases filed : ∃ file ∈ files, keyOf file.1 = key
    · obtain ⟨⟨path, content⟩, member, same⟩ := filed
      obtain ⟨bytes, obj, read, decoded, got⟩ := stored _ member same
      have located := (mem_filesAt present path).mp (perm.mem_iff.mp member)
      rw [show content = .ok bytes from read] at located
      rw [got, Option.some.injEq] at looked
      exact ⟨path, bytes, obj, located, decoded, same.symm, looked.symm⟩
    · have absent := kept fun file member same => filed ⟨file, member, same⟩
      rw [absent, fresh] at looked
      contradiction
  · rintro ⟨path, bytes, obj, located, decoded, rfl, rfl⟩
    have member := perm.mem_iff.mpr ((mem_filesAt present path).mpr located)
    obtain ⟨bytes', obj', read, decoded', got⟩ := stored _ member rfl
    cases read
    rw [decoded] at decoded'
    cases decoded'
    exact got

end Stored

/-! ## What a loader leaves -/

/-- The paths of different files of a namespace differ. -/
theorem relativePaths_nodup {files : List FileEntry} (walkable : Walkable root (directory :: ns))
    (perm : files.Perm (filesAt root (directory :: ns))) :
    (files.map fun file => relativePath (ns ++ file.1)).Nodup := by
  obtain ⟨node, found, isDir, -⟩ := walkable
  have proper : ∀ path ∈ files.map Prod.fst, ns ++ path ≠ [] := by
    intro path member empty
    obtain ⟨⟨path, content⟩, listed, rfl⟩ := List.mem_map.mp member
    have located := (mem_filesAt ⟨node, found⟩ path).mp (perm.mem_iff.mp listed)
    rw [show path = [] from (List.append_eq_nil_iff.mp empty).2, List.append_nil, found] at located
    simp [Option.some.inj located, Node.isDir] at isDir
  have distinct : (files.map Prod.fst).Nodup := by
    rw [(perm.map Prod.fst).nodup_iff, filesAt, found]
    exact node.files_nodup
  have renamed := distinct.map_on (f := fun path => relativePath (ns ++ path))
    fun first member second other same =>
      List.append_cancel_left (relativePath_injective (proper first member) (proper second other) same)
  rwa [List.map_map] at renamed

/-- Every directory can be listed and every file be read and decoded. -/
def Readable (root : Node) (names : List FileName) (decodes : Bytes → Prop) : Prop :=
  Walkable root names ∧
  ∀ path content, root.find (names ++ path) = some (.file content) →
    ∃ bytes, content = .ok bytes ∧ decodes bytes

theorem Readable.mono {names : List FileName} {narrow wide : Bytes → Prop}
    (implies : ∀ bytes, narrow bytes → wide bytes) (readable : Readable root names narrow) :
    Readable root names wide := by
  refine ⟨readable.1, fun path content located => ?_⟩
  obtain ⟨bytes, read, decodes⟩ := readable.2 path content located
  exact ⟨bytes, read, implies bytes decodes⟩

theorem loadObjects_readable (serves : Serves backend version root hash) {fuel : Nat}
    (loaded : loadObjects backend directory.text decode add fuel (namespaceText ns) version index =
      some (.ok index')) :
    Readable root (directory :: ns) fun bytes =>
      ∃ obj before path after, decode bytes = .ok obj ∧ add before path obj = some after := by
  obtain ⟨walkable, files, perm, added⟩ := loadObjects_ok serves loaded
  refine ⟨walkable, fun path content located => ?_⟩
  obtain ⟨node, found, -⟩ := walkable
  have member := perm.mem_iff.mpr ((mem_filesAt ⟨node, found⟩ path).mpr located)
  obtain ⟨bytes, obj, before, after, read, decoded, one⟩ := addAll_decoded added _ member
  exact ⟨bytes, read, obj, before, _, after, decoded, one⟩

/-- The loader succeeds where every file can be read, decoded and added. -/
theorem loadObjects_succeeds (directory : FileName) (serves : Serves backend version root hash)
    (readable : Readable root (directory :: ns) fun bytes =>
      ∃ obj, decode bytes = .ok obj ∧ ∀ before path, ∃ after, add before path obj = some after)
    (index : CFGIndex Pri) :
    ∃ enough index', ∀ fuel, enough ≤ fuel →
      loadObjects backend directory.text decode add fuel (namespaceText ns) version index =
        some (.ok index') := by
  have terminates : Terminates fun fuel =>
      loadObjects backend directory.text decode add fuel (namespaceText ns) version index :=
    loadObjects_terminates directory serves index
  obtain ⟨enough, result, ends⟩ := terminates
  have loaded := ends enough (Nat.le_refl _)
  simp only [loadObjects, namespaceText, join_namespace, serves.walkDir_eq,
    Option.map_eq_some_iff] at loaded
  obtain ⟨⟨final, outcome⟩, walked, finished⟩ := loaded
  have succeeded : outcome = .ok () := by
    refine walkLoop_succeeds serves (.cons (leads_dirPath (directory :: ns)) .nil) ?_ ?_ ?_ walked
    · intro names member
      obtain rfl := List.mem_singleton.mp member
      exact readable.1
    · intro index node isDir
      exact ⟨index, by simp [indexFile, isDir]⟩
    · intro names member path content located index
      obtain rfl := List.mem_singleton.mp member
      obtain ⟨bytes, rfl, obj, decoded, addable⟩ := readable.2 path content located
      exact indexFile_succeeds serves located decoded addable index
  subst succeeded
  exact ⟨enough, final, fun fuel more => (ends fuel more).trans (by rw [← finished]; rfl)⟩

theorem loadObjects_frame {β : Type} (part : CFGIndex Pri → β)
    (serves : Serves backend version root hash)
    (keeps : ∀ index path obj index', add index path obj = some index' → part index' = part index)
    {fuel : Nat}
    (loaded : loadObjects backend directory.text decode add fuel (namespaceText ns) version index =
      some (.ok index')) : part index' = part index := by
  obtain ⟨-, files, -, added⟩ := loadObjects_ok serves loaded
  exact addAll_frame keeps added

/-- An entry for every file under its path, and no others. -/
theorem loadObjects_stored {Entry : Type} {get : CFGIndex Pri → Str → Option Entry}
    {entry : Str → Obj → Entry} (serves : Serves backend version root hash)
    (stores : Stores add get entry) (fresh : ∀ key, get index key = none) {fuel : Nat}
    (loaded : loadObjects backend directory.text decode add fuel (namespaceText ns) version index =
      some (.ok index')) (key : Str) (value : Entry) :
    get index' key = some value ↔
      ∃ path bytes obj, root.find (directory :: ns ++ path) = some (.file (.ok bytes)) ∧
        decode bytes = .ok obj ∧ key = relativePath (ns ++ path) ∧ value = entry key obj := by
  obtain ⟨walkable, files, perm, added⟩ := loadObjects_ok serves loaded
  have distinct := relativePaths_nodup walkable perm
  obtain ⟨node, found, -⟩ := walkable
  exact addAll_placed_iff stores fresh (fun path => relativePath (ns ++ path)) ⟨node, found⟩ perm
    (fun _ _ _ _ => rfl) distinct added key value

end Objects

/-! ## The three loaders -/

section Loaders

variable {crates : Crates Pri} {index index' : CFGIndex Pri}

def rulesName : FileName := ⟨"rules".toList, by decide⟩
def linksName : FileName := ⟨"links".toList, by decide⟩
def resesName : FileName := ⟨"reses".toList, by decide⟩

theorem directories_nodup : [rulesName, linksName, resesName].Nodup := by decide

/-! ### Rules and resources -/

def ruleEntry (path : Str) (ruleObj : Rule) : IdxRuleItem :=
  { rule := ruleObj.spec.rule, absPath := path }

def resEntry (path : Str) (resObj : Res) : Resource :=
  { data := resObj.spec.items.map fun spec =>
      { contentType := spec.contentType, key := spec.key, value := spec.data }
    resPath := path }

theorem lookup_insert_eq {Entry : Type} (stored : Finmap fun _ : Str => Entry) (path key : Str)
    (value : Entry) :
    (stored.insert path value).lookup key = if key = path then some value else stored.lookup key := by
  split
  · rename_i same
    rw [same, Finmap.lookup_insert]
  · rename_i differ
    rw [Finmap.lookup_insert_of_ne _ differ]

theorem stores_rule : Stores CFGIndex.addRule
    (fun (index : CFGIndex Pri) key => index.ruleStor.storage.lookup key) ruleEntry := by
  intro index path obj index' added key
  cases added
  exact lookup_insert_eq _ _ _ _

theorem stores_res : Stores CFGIndex.addRes
    (fun (index : CFGIndex Pri) key => index.resStor.getResByPath key) resEntry := by
  intro index path obj index' added key
  cases added
  exact lookup_insert_eq _ _ _ _

/-! ### Links -/

def withoutPrefix (reference : Str) : Str := (removePathTypePrefix reference).getD []

/-- The items of a link, one for each resource that it refers to. -/
def itemsOf (linkPath : Str) (linkObj : Link Pri) : List (IdxLinkItem Pri) :=
  linkObj.spec.reses.map fun resPath =>
    { pri := linkObj.spec.pri, isNeg := linkObj.spec.isNeg, rulePath := linkObj.spec.rule
      absResPath := withoutPrefix resPath, linkPath }

/-- What a link file adds to the items of a rule path. -/
def linkEntries (crates : Crates Pri) (ns : List FileName) (rulePath : Str) (file : FileEntry) :
    List (IdxLinkItem Pri) :=
  match file.2 with
  | .error _ => []
  | .ok bytes =>
      match Link.loadFromSlice crates bytes with
      | .error _ => []
      | .ok linkObj =>
          if removePathTypePrefix linkObj.spec.rule = some rulePath then
            itemsOf (relativePath (ns ++ file.1)) linkObj
          else []

theorem linkEntries_decoded {crates : Crates Pri} {path : List FileName} {bytes : Bytes} {linkObj : Link Pri}
    {rulePath : Str} (decoded : Link.loadFromSlice crates bytes = .ok linkObj)
    (under : removePathTypePrefix linkObj.spec.rule = some rulePath) :
    linkEntries crates ns rulePath (path, .ok bytes) = itemsOf (relativePath (ns ++ path)) linkObj := by
  simp only [linkEntries, decoded, under, if_true]

def itemsAt (index : LinkIndex Pri) (rulePath : Str) : List (IdxLinkItem Pri) :=
  (index.getLinkByRulePath rulePath).getD []

/-- The references of a link are long enough to lose their prefix. -/
def Sliceable (linkObj : Link Pri) : Prop :=
  ∀ reference ∈ linkObj.spec.rule :: linkObj.spec.reses, removePathTypePrefix reference ≠ none

theorem mapM_prefix_eq_some {f : Str → IdxLinkItem Pri} {references : List Str}
    {items : List (IdxLinkItem Pri)}
    (built : references.mapM (fun resPath => (removePathTypePrefix resPath).map f) = some items) :
    items = references.map (fun resPath => f (withoutPrefix resPath)) ∧
      ∀ reference ∈ references, removePathTypePrefix reference ≠ none := by
  induction references generalizing items with
  | nil =>
      cases built
      simp
  | cons resPath references ih =>
      rw [List.mapM_cons] at built
      cases sliced : removePathTypePrefix resPath with
      | none => simp [sliced] at built
      | some absResPath =>
          simp only [sliced, Option.map_some, Option.bind_eq_bind, Option.bind_some,
            Option.bind_eq_some_iff, Option.pure_def, Option.some.injEq] at built
          obtain ⟨rest, others, rfl⟩ := built
          obtain ⟨rfl, sliceable⟩ := ih others
          refine ⟨by simp [withoutPrefix, sliced], fun reference member => ?_⟩
          rcases List.mem_cons.mp member with rfl | member
          · simp [sliced]
          · exact sliceable reference member

theorem addLink_eq_some {stored stored' : LinkIndex Pri} {linkPath : Str} {linkObj : Link Pri}
    (added : stored.addLink linkPath linkObj = some stored') :
    Sliceable linkObj ∧ ∀ rulePath, itemsAt stored' rulePath = itemsAt stored rulePath ++
      if removePathTypePrefix linkObj.spec.rule = some rulePath then itemsOf linkPath linkObj else [] := by
  unfold LinkIndex.addLink at added
  cases built : linkItems linkPath linkObj with
  | none => simp [built] at added
  | some items =>
      cases sliced : removePathTypePrefix linkObj.spec.rule with
      | none => simp [built, sliced] at added
      | some ruleAbsPath =>
          simp only [built, sliced, Option.some.injEq] at added
          subst added
          obtain ⟨rfl, sliceable⟩ := mapM_prefix_eq_some built
          constructor
          · intro reference member
            rcases List.mem_cons.mp member with rfl | member
            · simp [sliced]
            · exact sliceable reference member
          · intro rulePath
            simp only [itemsAt, LinkIndex.getLinkByRulePath, lookup_insert_eq, Option.some.injEq]
            by_cases same : ruleAbsPath = rulePath
            · subst same
              simp [itemsOf]
            · simp [same, Ne.symm same]

theorem addLink_succeeds {linkObj : Link Pri} (sliceable : Sliceable linkObj) (index : CFGIndex Pri)
    (linkPath : Str) : ∃ after, index.addLink linkPath linkObj = some after := by
  have slices : ∀ reference ∈ linkObj.spec.rule :: linkObj.spec.reses,
      ∃ sliced, removePathTypePrefix reference = some sliced :=
    fun reference member => Option.ne_none_iff_exists'.mp (sliceable reference member)
  obtain ⟨ruleAbsPath, ruleSliced⟩ := slices linkObj.spec.rule (by simp)
  have built : ∃ items, linkItems linkPath linkObj = some items := by
    unfold linkItems
    have each : ∀ reference ∈ linkObj.spec.reses, removePathTypePrefix reference ≠ none :=
      fun reference member => sliceable reference (by simp [member])
    generalize linkObj.spec.reses = references at each
    induction references with
    | nil => exact ⟨[], rfl⟩
    | cons resPath references ih =>
        obtain ⟨absResPath, sliced⟩ := Option.ne_none_iff_exists'.mp (each resPath (by simp))
        obtain ⟨items, others⟩ := ih fun reference member => each reference (by simp [member])
        rw [List.mapM_cons, others, sliced]
        exact ⟨_, rfl⟩
  obtain ⟨items, built⟩ := built
  simp [CFGIndex.addLink, LinkIndex.addLink, built, ruleSliced]

/-- The items of a link file that is found under a link path. -/
def linkItemsAt (crates : Crates Pri) (linkPath rulePath : Str) (content : Except IOError Bytes) :
    List (IdxLinkItem Pri) :=
  match content with
  | .error _ => []
  | .ok bytes =>
      match Link.loadFromSlice crates bytes with
      | .error _ => []
      | .ok linkObj =>
          if removePathTypePrefix linkObj.spec.rule = some rulePath then itemsOf linkPath linkObj else []

theorem addAll_placed_links {place : CFGIndex Pri → Str → Link Pri → Option (CFGIndex Pri)}
    (keyOf : List FileName → Str) {files : List FileEntry}
    (places : ∀ file ∈ files, ∀ index obj,
      place index (relativePath (ns ++ file.1)) obj = CFGIndex.addLink index (keyOf file.1) obj)
    (added : addAll (Link.loadFromSlice crates) place ns files index = some index') (rulePath : Str) :
    itemsAt index'.linkStor rulePath = itemsAt index.linkStor rulePath ++
      files.flatMap fun file => linkItemsAt crates (keyOf file.1) rulePath file.2 := by
  induction files generalizing index with
  | nil =>
      cases added
      simp
  | cons file files ih =>
      obtain ⟨path, content⟩ := file
      obtain ⟨bytes, obj, next, rfl, decoded, one, rest⟩ := addAll_cons added
      rw [places (path, .ok bytes) (by simp)] at one
      obtain ⟨linkStor, linked, rfl⟩ := Option.map_eq_some_iff.mp one
      rw [ih (fun file member => places file (by simp [member])) rest, (addLink_eq_some linked).2 rulePath]
      simp [linkItemsAt, decoded]

theorem addAll_links {files : List FileEntry}
    (added : addAll (Link.loadFromSlice crates) CFGIndex.addLink ns files index = some index')
    (rulePath : Str) :
    itemsAt index'.linkStor rulePath =
      itemsAt index.linkStor rulePath ++ files.flatMap (linkEntries crates ns rulePath) :=
  addAll_placed_links (fun path => relativePath (ns ++ path)) (fun _ _ _ _ => rfl) added rulePath

/-! ### What each loader does -/

variable {fuel : Nat}

theorem loadRule_ok (serves : Serves backend version root hash)
    (fresh : ∀ key, index.ruleStor.storage.lookup key = none)
    (loaded : loadRule crates backend fuel (namespaceText ns) version index = some (.ok index')) :
    (∀ key item, index'.ruleStor.storage.lookup key = some item ↔
      ∃ path bytes ruleObj, root.find (rulesName :: ns ++ path) = some (.file (.ok bytes)) ∧
        Rule.loadFromSlice crates bytes = .ok ruleObj ∧ key = relativePath (ns ++ path) ∧
        item = ruleEntry key ruleObj) ∧
    (Readable root (rulesName :: ns) fun bytes =>
      ∃ ruleObj, Rule.loadFromSlice crates bytes = .ok ruleObj) ∧
    index'.linkStor = index.linkStor ∧ index'.resStor = index.resStor := by
  have objects : loadObjects backend rulesName.text (Rule.loadFromSlice crates) CFGIndex.addRule fuel
      (namespaceText ns) version index = some (.ok index') := loaded
  refine ⟨loadObjects_stored serves stores_rule fresh objects, ?_, ?_⟩
  · refine (loadObjects_readable serves objects).mono ?_
    rintro bytes ⟨ruleObj, _, _, _, decoded, -⟩
    exact ⟨ruleObj, decoded⟩
  · refine Prod.mk.inj (loadObjects_frame (fun index => (index.linkStor, index.resStor)) serves ?_ objects)
    intro _ _ _ _ added
    cases added
    rfl

theorem loadRes_ok (serves : Serves backend version root hash)
    (fresh : ∀ key, index.resStor.getResByPath key = none)
    (loaded : loadRes crates backend fuel (namespaceText ns) version index = some (.ok index')) :
    (∀ key res, index'.resStor.getResByPath key = some res ↔
      ∃ path bytes resObj, root.find (resesName :: ns ++ path) = some (.file (.ok bytes)) ∧
        Res.loadFromSlice crates bytes = .ok resObj ∧ key = relativePath (ns ++ path) ∧
        res = resEntry key resObj) ∧
    (Readable root (resesName :: ns) fun bytes =>
      ∃ resObj, Res.loadFromSlice crates bytes = .ok resObj) ∧
    index'.ruleStor = index.ruleStor ∧ index'.linkStor = index.linkStor := by
  have objects : loadObjects backend resesName.text (Res.loadFromSlice crates) CFGIndex.addRes fuel
      (namespaceText ns) version index = some (.ok index') := loaded
  refine ⟨loadObjects_stored serves stores_res fresh objects, ?_, ?_⟩
  · refine (loadObjects_readable serves objects).mono ?_
    rintro bytes ⟨resObj, _, _, _, decoded, -⟩
    exact ⟨resObj, decoded⟩
  · refine Prod.mk.inj (loadObjects_frame (fun index => (index.ruleStor, index.linkStor)) serves ?_ objects)
    intro _ _ _ _ added
    cases added
    rfl

theorem loadLink_ok (serves : Serves backend version root hash)
    (loaded : loadLink crates backend fuel (namespaceText ns) version index = some (.ok index')) :
    (∀ rulePath, (itemsAt index'.linkStor rulePath).Perm (itemsAt index.linkStor rulePath ++
      (filesAt root (linksName :: ns)).flatMap (linkEntries crates ns rulePath))) ∧
    (Readable root (linksName :: ns) fun bytes =>
      ∃ linkObj, Link.loadFromSlice crates bytes = .ok linkObj ∧ Sliceable linkObj) ∧
    index'.ruleStor = index.ruleStor ∧ index'.resStor = index.resStor := by
  have objects : loadObjects backend linksName.text (Link.loadFromSlice crates) CFGIndex.addLink fuel
      (namespaceText ns) version index = some (.ok index') := loaded
  refine ⟨fun rulePath => ?_, ?_, ?_⟩
  · obtain ⟨-, files, perm, added⟩ := loadObjects_ok serves objects
    rw [addAll_links added]
    exact (perm.flatMap_right _).append_left _
  · refine (loadObjects_readable serves objects).mono ?_
    rintro bytes ⟨linkObj, _, _, _, decoded, one⟩
    obtain ⟨linkStor, linked, -⟩ := Option.map_eq_some_iff.mp one
    exact ⟨linkObj, decoded, (addLink_eq_some linked).1⟩
  · refine Prod.mk.inj (loadObjects_frame (fun index => (index.ruleStor, index.resStor)) serves ?_ objects)
    intro _ _ _ _ added
    obtain ⟨_, -, rfl⟩ := Option.map_eq_some_iff.mp added
    rfl

end Loaders

/-! ## The index of a namespace -/

section Index

variable {crates : Crates Pri} {index : CFGIndex Pri}

/-- The index of a namespace holds exactly its files. -/
structure Loaded (crates : Crates Pri) (root : Node) (ns : List FileName) (index : CFGIndex Pri) :
    Prop where
  rules : ∀ key item, index.ruleStor.storage.lookup key = some item ↔
    ∃ path bytes ruleObj, root.find (rulesName :: ns ++ path) = some (.file (.ok bytes)) ∧
      Rule.loadFromSlice crates bytes = .ok ruleObj ∧ key = relativePath (ns ++ path) ∧
      item = ruleEntry key ruleObj
  reses : ∀ key res, index.resStor.getResByPath key = some res ↔
    ∃ path bytes resObj, root.find (resesName :: ns ++ path) = some (.file (.ok bytes)) ∧
      Res.loadFromSlice crates bytes = .ok resObj ∧ key = relativePath (ns ++ path) ∧
      res = resEntry key resObj
  links : ∀ rulePath, (itemsAt index.linkStor rulePath).Perm
    ((filesAt root (linksName :: ns)).flatMap (linkEntries crates ns rulePath))
  rulesRead : Readable root (rulesName :: ns) fun bytes =>
    ∃ ruleObj, Rule.loadFromSlice crates bytes = .ok ruleObj
  linksRead : Readable root (linksName :: ns) fun bytes =>
    ∃ linkObj, Link.loadFromSlice crates bytes = .ok linkObj ∧ Sliceable linkObj
  resesRead : Readable root (resesName :: ns) fun bytes =>
    ∃ resObj, Res.loadFromSlice crates bytes = .ok resObj

theorem thenLoad_eq_ok {ε α β : Type} {first : Option (Rust ε α)} {next : α → Option (Rust ε β)}
    {value : β} :
    thenLoad first next = some (.ok value) ↔
      ∃ middle, first = some (.ok middle) ∧ next middle = some (.ok value) := by
  match first with
  | none | some (.error _) | some (.ok _) => simp [thenLoad]

theorem Terminates.thenLoad {ε α β : Type} {run : Nat → Option (Rust ε α)}
    {next : Nat → α → Option (Rust ε β)} (first : Terminates run)
    (rest : ∀ middle, Terminates fun fuel => next fuel middle) :
    Terminates fun fuel => thenLoad (run fuel) (next fuel) := by
  obtain ⟨enough, result, ends⟩ := first
  cases result with
  | error failure =>
      exact ⟨enough, .error failure, fun fuel more => by simp [CfgCenter.thenLoad, ends fuel more]⟩
  | ok middle =>
      obtain ⟨enough', result', ends'⟩ := rest middle
      refine ⟨max enough enough', result', fun fuel more => ?_⟩
      simp only [CfgCenter.thenLoad, ends fuel (by omega)]
      exact ends' fuel (by omega)

theorem load_terminates (serves : Serves backend version root hash) :
    Terminates fun fuel => IndexBuilder.load crates backend fuel (namespaceText ns) version :=
  (loadObjects_terminates rulesName serves _).thenLoad fun _ =>
    (loadObjects_terminates linksName serves _).thenLoad fun _ =>
      loadObjects_terminates resesName serves _

theorem load_loaded (serves : Serves backend version root hash) {fuel : Nat}
    (loaded : IndexBuilder.load crates backend fuel (namespaceText ns) version = some (.ok index)) :
    Loaded crates root ns index := by
  obtain ⟨withRules, rulesLoaded, rest⟩ := thenLoad_eq_ok.mp loaded
  obtain ⟨withLinks, linksLoaded, resesLoaded⟩ := thenLoad_eq_ok.mp rest
  obtain ⟨rules, rulesRead, noLinks, noReses⟩ := loadRule_ok serves (fun _ => rfl) rulesLoaded
  obtain ⟨links, linksRead, rulesKept, resesKept⟩ := loadLink_ok serves linksLoaded
  obtain ⟨reses, resesRead, rulesKept', linksKept⟩ := loadRes_ok serves
    (fun key => by rw [resesKept, noReses]; rfl) resesLoaded
  rw [noLinks] at links
  exact {
    rules := by rwa [rulesKept', rulesKept]
    reses := reses
    links := by rwa [linksKept]
    rulesRead := rulesRead
    linksRead := linksRead
    resesRead := resesRead }

/-- The namespace loads where each of its loaders succeeds. -/
theorem load_of_loaders {crates : Crates Pri} {namespaceName : Str}
    (rules : ∀ index, ∃ enough index', ∀ fuel, enough ≤ fuel →
      loadRule crates backend fuel namespaceName version index = some (.ok index'))
    (links : ∀ index, ∃ enough index', ∀ fuel, enough ≤ fuel →
      loadLink crates backend fuel namespaceName version index = some (.ok index'))
    (reses : ∀ index, ∃ enough index', ∀ fuel, enough ≤ fuel →
      loadRes crates backend fuel namespaceName version index = some (.ok index')) :
    ∃ fuel index, IndexBuilder.load crates backend fuel namespaceName version = some (.ok index) := by
  obtain ⟨first, withRules, rulesLoaded⟩ := rules .empty
  obtain ⟨second, withLinks, linksLoaded⟩ := links withRules
  obtain ⟨third, index, resesLoaded⟩ := reses withLinks
  refine ⟨first + second + third, index, thenLoad_eq_ok.mpr ⟨withRules, ?_, ?_⟩⟩
  · exact rulesLoaded _ (by omega)
  · exact thenLoad_eq_ok.mpr ⟨withLinks, linksLoaded _ (by omega), resesLoaded _ (by omega)⟩

/-- Loading succeeds exactly where every file of the namespace can be listed,
read and decoded and the references of its links can be sliced. -/
theorem load_succeeds_iff (crates : Crates Pri) (serves : Serves backend version root hash) :
    (∃ fuel index, IndexBuilder.load crates backend fuel (namespaceText ns) version =
      some (.ok index)) ↔
    (Readable root (rulesName :: ns) fun bytes =>
      ∃ ruleObj, Rule.loadFromSlice crates bytes = .ok ruleObj) ∧
    (Readable root (linksName :: ns) fun bytes =>
      ∃ linkObj, Link.loadFromSlice crates bytes = .ok linkObj ∧ Sliceable linkObj) ∧
    (Readable root (resesName :: ns) fun bytes =>
      ∃ resObj, Res.loadFromSlice crates bytes = .ok resObj) := by
  constructor
  · rintro ⟨fuel, index, loaded⟩
    have whole := load_loaded serves loaded
    exact ⟨whole.rulesRead, whole.linksRead, whole.resesRead⟩
  · rintro ⟨rules, links, reses⟩
    exact load_of_loaders
      (loadObjects_succeeds rulesName serves
        (rules.mono fun bytes ⟨ruleObj, decoded⟩ => ⟨ruleObj, decoded, fun _ _ => ⟨_, rfl⟩⟩))
      (loadObjects_succeeds linksName serves (links.mono fun bytes ⟨linkObj, decoded, sliceable⟩ =>
        ⟨linkObj, decoded, addLink_succeeds sliceable⟩))
      (loadObjects_succeeds resesName serves
        (reses.mono fun bytes ⟨resObj, decoded⟩ => ⟨resObj, decoded, fun _ _ => ⟨_, rfl⟩⟩))

/-- Loading ends, and when it succeeds the index holds exactly the namespace's
files, all of which were listed, read and decoded. -/
theorem load_exact (crates : Crates Pri) :
    (∀ (fs : FileSystem) (files : FilesystemBackend) (version : VersionItem) (id : Str) (root : Node),
      fromUtf8 version.id = some id → fs.resolve (Path.join files.basePath id) = .ok root →
      ∃ hash, Serves (files.toStorageBackend fs) version root hash) ∧
    ∀ (backend : StorageBackend) (version : VersionItem) (root : Node)
      (hash : List FileName → ObjectID) (ns : List FileName), Serves backend version root hash →
      (Terminates fun fuel => IndexBuilder.load crates backend fuel (namespaceText ns) version) ∧
      ∀ fuel index, IndexBuilder.load crates backend fuel (namespaceText ns) version =
        some (.ok index) → Loaded crates root ns index :=
  ⟨fun _ _ _ _ _ named resolved => ⟨_, FilesystemBackend.serves named resolved⟩,
    fun _ _ _ _ _ serves => ⟨load_terminates serves, fun _ _ loaded => load_loaded serves loaded⟩⟩

end Index

/-! ### A file system with one rule and one link to two resources -/

section Sample

def sampleText (kind spec : Str) : Str :=
  "\x7b\"kind\":\"".toList ++ kind ++
    "\",\"version\":1,\"meta\":\x7b\"desc\":\"\",\"tags\":[]\x7d,\"spec\":".toList ++ spec ++ "\x7d".toList

def sampleRuleText : Str :=
  sampleText "Rule".toList "\x7b\"rule\":\"a==\\\"1\\\"\"\x7d".toList

def sampleLinkText : Str :=
  sampleText "Link".toList
    "\x7b\"pri\":1,\"is_neg\":false,\"ver\":\"\",\"rule\":\"path:/r\",\"res\":[\"path:/s\",\"path:/t\"]\x7d".toList

def sampleResText (data : Char) : Str :=
  sampleText "Res".toList ("[\x7b\"content_type\":\"text\",\"key\":\"k\",\"data\":\"".toList ++
    data :: "\",\"schema\":null\x7d]".toList)

def sampleMeta : Json := .object [("desc".toList, .string []), ("tags".toList, .array [])]

def sampleRuleObject : RootCommon :=
  ⟨1, "Rule".toList, sampleMeta, .object [("rule".toList, .string "a==\"1\"".toList)]⟩

def sampleLinkObject : RootCommon :=
  ⟨1, "Link".toList, sampleMeta, .object [("pri".toList, .number ['1']),
    ("is_neg".toList, .bool false), ("ver".toList, .string []), ("rule".toList, .string "path:/r".toList),
    ("res".toList, .array [.string "path:/s".toList, .string "path:/t".toList])]⟩

def sampleResObject (data : Char) : RootCommon :=
  ⟨1, "Res".toList, sampleMeta, .array [.object [("content_type".toList, .string "text".toList),
    ("key".toList, .string ['k']), ("data".toList, .string [data]), ("schema".toList, .null)]]⟩

/-- The sample files as a JSON parser reads them. -/
def sampleJson (text : Str) : Except SerdeError RootCommon :=
  if text = sampleRuleText then .ok sampleRuleObject
  else if text = sampleLinkText then .ok sampleLinkObject
  else if text = sampleResText 'v' then .ok (sampleResObject 'v')
  else if text = sampleResText 'w' then .ok (sampleResObject 'w')
  else .error "unknown".toList

def sampleNumber (digits : Str) : Nat :=
  digits.foldl (fun value c => value * 10 + (c.toNat - '0'.toNat)) 0

def sampleResItem : Json → Option ResSpecItem
  | .object [(_, .string contentType), (_, .string key), (_, .string data), (_, schema)] =>
      some { contentType, key, data, schema }
  | _ => none

theorem sampleTexts_differ : sampleLinkText ≠ sampleRuleText ∧
    sampleResText 'v' ≠ sampleRuleText ∧ sampleResText 'v' ≠ sampleLinkText ∧
    sampleResText 'w' ≠ sampleRuleText ∧ sampleResText 'w' ≠ sampleLinkText := by
  decide +kernel

theorem sampleResText_injective : Function.Injective sampleResText := by
  intro first second same
  have specs := List.append_cancel_left (List.append_cancel_right same)
  exact (List.cons.inj (List.append_cancel_left specs)).1

/-- The crates on the sample files, whose fields stand in the order of their
structures. -/
def sampleCrates : Crates Nat where
  unescape := Parser.Unescape.unescape
  syntaxError _ := "Parsing Error".toList
  rootCommon bytes :=
    match fromUtf8 bytes with
    | some text => sampleJson text
    | none => .error "invalid unicode code point".toList
  metadata
    | .object [(_, .string desc), (_, .array tags)] =>
        .ok { desc, tags := tags.filterMap Json.asStr }
    | _ => .error "missing field".toList
  linkSpec
    | .object [(_, .number pri), (_, .bool isNeg), (_, .string ver), (_, .string rule),
        (_, .array reses)] =>
        .ok { pri := .finite (sampleNumber pri), isNeg, ver, rule, reses := reses.filterMap Json.asStr }
    | _ => .error "missing field".toList
  resSpec
    | .array items => .ok { items := items.filterMap sampleResItem }
    | _ => .error "expected an array".toList

def ruleFile : FileName := ⟨['r'], by decide⟩
def linkFile : FileName := ⟨['l'], by decide⟩
def resFile : FileName := ⟨['s'], by decide⟩
def otherResFile : FileName := ⟨['t'], by decide⟩

/-- A directory of files. -/
def sampleDir (names : Listing) (content : FileName → Str) : Node :=
  .dir none names fun name => .file (.ok (toUtf8 (content name)))

def sampleRoot : Node :=
  .dir none ⟨[rulesName, linksName, resesName], directories_nodup⟩ fun top =>
    if top = rulesName then sampleDir ⟨[ruleFile], by decide⟩ fun _ => sampleRuleText
    else if top = linksName then sampleDir ⟨[linkFile], by decide⟩ fun _ => sampleLinkText
    else sampleDir ⟨[resFile, otherResFile], by decide⟩ fun name =>
      if name = resFile then sampleResText 'v' else sampleResText 'w'

/-- The sample stands below the directory of version `v`. -/
def sampleSystem : FileSystem where
  root := .dir none ⟨[⟨['v'], plain_v⟩], nodup_v⟩ fun _ => sampleRoot
  cwd := []

def sampleBackend : StorageBackend := (⟨['/']⟩ : FilesystemBackend).toStorageBackend sampleSystem

def sampleVersion : VersionItem := { name := ['v'], id := toUtf8 ['v'] }

theorem sampleSystem_resolves : sampleSystem.resolve (Path.join ['/'] ['v']) = .ok sampleRoot := rfl

theorem find_sampleDir {root : Node} {top : List FileName} {names : Listing}
    {content : FileName → Str} (found : root.find top = some (sampleDir names content))
    (path : List FileName) (file : Except IOError Bytes) :
    root.find (top ++ path) = some (.file file) ↔
      ∃ name ∈ names.val, path = [name] ∧ file = .ok (toUtf8 (content name)) := by
  rw [← mem_filesAt ⟨_, found⟩ path]
  simp [filesAt, found, sampleDir, Node.files]

theorem readable_sampleDir {root : Node} {top : List FileName} {decodes : Bytes → Prop}
    {names : Listing} {content : FileName → Str}
    (found : root.find top = some (sampleDir names content))
    (decoded : ∀ name ∈ names.val, decodes (toUtf8 (content name))) : Readable root top decodes := by
  refine ⟨⟨_, found, rfl, rfl, fun _ _ => trivial⟩, fun path file located => ?_⟩
  obtain ⟨name, listed, rfl, rfl⟩ := (find_sampleDir found path file).mp located
  exact ⟨_, rfl, decoded name listed⟩

theorem sampleCrates_rootCommon {text : Str} {root : RootCommon} (read : sampleJson text = .ok root) :
    sampleCrates.rootCommon (toUtf8 text) = .ok root := by
  simp [sampleCrates, fromUtf8_toUtf8, read]

def sampleRule : Rule := ⟨⟨[], []⟩, ⟨.leaf ['a'] .eq (some (.str ['1']))⟩⟩

def sampleLink : Link Nat :=
  ⟨⟨[], []⟩, ⟨1, false, [], "path:/r".toList, ["path:/s".toList, "path:/t".toList]⟩⟩

def sampleRes (data : Char) : Res := ⟨⟨[], []⟩, ⟨[⟨"text".toList, ['k'], [data], .null⟩]⟩⟩

theorem sampleRule_decoded : Rule.loadFromSlice sampleCrates (toUtf8 sampleRuleText) = .ok sampleRule :=
  Rule.loadFromSlice_eq_ok (sampleCrates_rootCommon (if_pos rfl)) rfl rfl rfl

theorem sampleLink_decoded : Link.loadFromSlice sampleCrates (toUtf8 sampleLinkText) = .ok sampleLink := by
  have read : sampleJson sampleLinkText = .ok sampleLinkObject := by
    rw [sampleJson, if_neg sampleTexts_differ.1, if_pos rfl]
  exact Link.loadFromSlice_eq_ok (sampleCrates_rootCommon read) rfl rfl rfl

theorem sampleRes_decoded :
    Res.loadFromSlice sampleCrates (toUtf8 (sampleResText 'v')) = .ok (sampleRes 'v') ∧
    Res.loadFromSlice sampleCrates (toUtf8 (sampleResText 'w')) = .ok (sampleRes 'w') := by
  obtain ⟨-, vRule, vLink, wRule, wLink⟩ := sampleTexts_differ
  have differ : sampleResText 'w' ≠ sampleResText 'v' :=
    fun same => absurd (sampleResText_injective same) (by decide)
  have readV : sampleJson (sampleResText 'v') = .ok (sampleResObject 'v') := by
    rw [sampleJson, if_neg vRule, if_neg vLink, if_pos rfl]
  have readW : sampleJson (sampleResText 'w') = .ok (sampleResObject 'w') := by
    rw [sampleJson, if_neg wRule, if_neg wLink, if_neg differ, if_pos rfl]
  exact ⟨Res.loadFromSlice_eq_ok (sampleCrates_rootCommon readV) rfl rfl,
    Res.loadFromSlice_eq_ok (sampleCrates_rootCommon readW) rfl rfl⟩

theorem sampleLink_sliceable : Sliceable sampleLink := by
  simp only [Sliceable, sampleLink, List.mem_cons, List.not_mem_nil, or_false]
  rintro reference (rfl | rfl | rfl) <;> decide

theorem sample_loads {backend : StorageBackend} {version : VersionItem} {hash : List FileName → ObjectID}
    (serves : Serves backend version sampleRoot hash) :
    ∃ fuel index, IndexBuilder.load sampleCrates backend fuel (namespaceText []) version =
      some (.ok index) := by
  have rules : Readable sampleRoot [rulesName] fun bytes =>
      ∃ ruleObj, Rule.loadFromSlice sampleCrates bytes = .ok ruleObj :=
    readable_sampleDir rfl fun _ _ => ⟨_, sampleRule_decoded⟩
  have links : Readable sampleRoot [linksName] fun bytes =>
      ∃ linkObj, Link.loadFromSlice sampleCrates bytes = .ok linkObj ∧ Sliceable linkObj :=
    readable_sampleDir rfl fun _ _ => ⟨_, sampleLink_decoded, sampleLink_sliceable⟩
  have reses : Readable sampleRoot [resesName] fun bytes =>
      ∃ resObj, Res.loadFromSlice sampleCrates bytes = .ok resObj := by
    refine readable_sampleDir rfl fun name _ => ?_
    split
    · exact ⟨_, sampleRes_decoded.1⟩
    · exact ⟨_, sampleRes_decoded.2⟩
  exact (load_succeeds_iff sampleCrates serves).mpr ⟨rules, links, reses⟩

theorem load_exact_sample : ∃ fuel index,
    IndexBuilder.load sampleCrates sampleBackend fuel (namespaceText []) sampleVersion =
      some (.ok index) ∧ Loaded sampleCrates sampleRoot [] index := by
  have whole := load_exact sampleCrates
  obtain ⟨hash, serves⟩ := whole.1 sampleSystem ⟨['/']⟩ sampleVersion ['v'] sampleRoot
    (fromUtf8_toUtf8 _) sampleSystem_resolves
  obtain ⟨fuel, index, loaded⟩ := sample_loads serves
  exact ⟨fuel, index, loaded, (whole.2 _ _ _ _ _ serves).2 fuel index loaded⟩

end Sample

end Eafcc.CfgCenter
