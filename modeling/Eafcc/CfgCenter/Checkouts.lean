import Eafcc.CfgCenter.LoadAlike

namespace Eafcc.CfgCenter

open Eafcc.RuleEngine Eafcc.Model Eafcc.Storage

/-! # Namespaces of version directories -/

variable {Pri : Type} {crates : Crates Pri} {rel : Path} {ns : Str} {names : List FileName} {directory : FileName}
  {fuel : Nat} {index index' : CFGIndex Pri}

/-- The directory of a version in a file system. -/
structure Checkout where
  fs : FileSystem
  files : FilesystemBackend
  version : VersionItem
  id : Str
  tree : Node
  named : fromUtf8 version.id = some id
  resolved : fs.resolve (Path.join files.basePath id) = .ok tree

def Checkout.backend (checkout : Checkout) : StorageBackend := checkout.files.toStorageBackend checkout.fs

def Checkout.nodeAt (checkout : Checkout) (path : Path) : Except StorageBackendError Node :=
  checkout.files.nodeAt checkout.fs checkout.version path

def Checkout.load (crates : Crates Pri) (checkout : Checkout) (fuel : Nat) (ns : Str) :
    Option (Rust MemoryIndexError (CFGIndex Pri)) :=
  IndexBuilder.load crates checkout.backend fuel ns checkout.version

def Checkout.Loads (crates : Crates Pri) (checkout : Checkout) (ns : Str) : Prop :=
  ∃ fuel index, checkout.load crates fuel ns = some (.ok index)

/-! ## A namespace as a sequence of names -/

/-- The namespace read as a sequence of directory names. -/
def NamedBy (names : List FileName) (ns : Str) : Prop :=
  names.map FileName.text = (Path.segments ns).filter fun segment => !Path.isTrivial segment

/-- The namespace goes down from the directory that a loader starts from. -/
def Descends (ns : Str) : Prop := ¬ ['/', '/'] <+: ns ∧ ['.', '.'] ∉ Path.segments ns

theorem exists_names {segments : List Str} (plain : ∀ segment ∈ segments, segment ≠ [] ∧ '/' ∉ segment ∧
    segment ≠ ['.'] ∧ segment ≠ ['.', '.']) : ∃ names : List FileName, names.map FileName.text = segments := by
  induction segments with
  | nil => exact ⟨[], rfl⟩
  | cons segment segments ih =>
      obtain ⟨here, others⟩ := List.forall_mem_cons.mp plain
      obtain ⟨names, rfl⟩ := ih others
      exact ⟨⟨segment, here⟩ :: names, rfl⟩

theorem exists_namedBy (noParent : ['.', '.'] ∉ Path.segments ns) : ∃ names, NamedBy names ns := by
  apply exists_names
  intro segment member
  obtain ⟨member, proper⟩ := List.mem_filter.mp member
  have plain : segment ≠ [] ∧ segment ≠ ['.'] := by simpa [Path.isTrivial] using proper
  refine ⟨plain.1, Path.segment_plain ns segment member, plain.2, ?_⟩
  rintro rfl
  exact noParent member

theorem NamedBy.noParent (named : NamedBy names ns) : ['.', '.'] ∉ Path.segments ns := by
  intro member
  have kept : ['.', '.'] ∈ names.map FileName.text := by
    rw [named]
    exact List.mem_filter.mpr ⟨member, rfl⟩
  obtain ⟨name, -, parent⟩ := List.mem_map.mp kept
  exact name.plain.2.2.2 parent

/-- The loaders of a namespace that goes down walk over the directories that its names name. -/
theorem Checkout.nodeAt_walk (checkout : Checkout) (directory : FileName) (single : ¬ ['/', '/'] <+: '/' :: rel)
    (named : NamedBy names ('/' :: rel)) {node : Node} :
    checkout.nodeAt (Path.join ('/' :: directory.text) rel) = .ok node ↔
      checkout.tree.find (directory :: names) = some node := by
  have segments : Path.segments ([] ++ '/' :: rel) = [] :: Path.segments rel := Path.segments_separated [] rel
  have written : (Path.segments (Path.join ('/' :: directory.text) rel)).filter
      (fun segment => !Path.isTrivial segment) = (directory :: names).map FileName.text := by
    rw [NamedBy, ← List.nil_append ('/' :: rel), segments] at named
    rw [segments_walk directory (relative_of_single single), List.map_cons, named]
    simp [isTrivial_fileName, show Path.isTrivial [] = true from rfl]
  exact FilesystemBackend.nodeAt_names checkout.named checkout.resolved (walk_absolute directory rel) (by simp) written

/-! ## What the loaders of a namespace find -/

section Loader

variable {Obj : Type} {decode : Bytes → Except DataLoaderError Obj}
  {add : CFGIndex Pri → Str → Obj → Option (CFGIndex Pri)} {checkout : Checkout} {before : List Str}

theorem readable_found {node : Node} {decodes : Bytes → Prop}
    (found : checkout.tree.find (directory :: names) = some node) :
    Readable (loneTree directory node) [directory] decodes ↔
      Readable checkout.tree (directory :: names) decodes := by
  have below : ∀ path, checkout.tree.find (directory :: names ++ path) = node.find path := by
    intro path
    rw [Node.find_append, found, Option.bind_some]
  rw [readable_loneTree]
  simp only [Readable, Walkable, found, Option.some.injEq, exists_eq_left', below, and_assoc]

theorem placed_eq (keys : Keys directory rel before) {path : List FileName} (nonempty : path ≠ [])
    (index : CFGIndex Pri) (obj : Obj) :
    placed directory (Path.join ('/' :: directory.text) rel) add index (relativePath path) obj =
      add index (keyOf before path) obj := by
  rw [placed, addAt, keys.strips path nonempty, Option.bind_some]

/-- A file of the directory that a loader walks over is below it. -/
theorem files_proper {node : Node} (isDir : node.isDir = true) {path : List FileName}
    {content : Except IOError Bytes} (member : (path, content) ∈ node.files) : path ≠ [] := by
  rintro rfl
  rw [Node.mem_files] at member
  simp only [Node.find, Option.some.injEq] at member
  rw [member] at isDir
  cases isDir

variable (accepted : CFGCenterInner.validNamespace ('/' :: rel) = true)
  (single : ¬ ['/', '/'] <+: '/' :: rel) (named : NamedBy names ('/' :: rel))

include accepted single named

theorem Checkout.loader_ok (loaded : loadObjects checkout.backend directory.text decode add fuel ('/' :: rel)
      checkout.version index = some (.ok index')) :
    (Readable checkout.tree (directory :: names) fun bytes =>
      ∃ obj before path after, decode bytes = .ok obj ∧ add before path obj = some after) ∧
    ∃ files, List.Perm files (filesAt checkout.tree (directory :: names)) ∧
      (∀ file ∈ files, file.1 ≠ []) ∧
      addAll decode (placed directory (Path.join ('/' :: directory.text) rel) add) [] files index = some index' := by
  obtain ⟨node, located⟩ := loadObjects_found loaded
  obtain ⟨readable, files, perm, added⟩ := loadObjects_at_ok accepted located loaded
  have found := (checkout.nodeAt_walk directory single named).mp located
  have here : filesAt checkout.tree (directory :: names) = node.files := by
    rw [filesAt, found]
    rfl
  have proper : ∀ file ∈ files, file.1 ≠ [] := fun file member =>
    files_proper (readable_loneTree.mp readable).1 (perm.mem_iff.mp member)
  refine ⟨((readable_found found).mp readable).mono ?_, files, by rwa [here], proper, added⟩
  intro bytes takes
  obtain ⟨obj, index, path, after, decoded, one⟩ := takes
  unfold placed addAt at one
  obtain ⟨key, -, one⟩ := Option.bind_eq_some_iff.mp one
  exact ⟨obj, index, key, after, decoded, one⟩

theorem Checkout.loader_succeeds (directory : FileName)
    (readable : Readable checkout.tree (directory :: names) fun bytes =>
      ∃ obj, decode bytes = .ok obj ∧ ∀ before path, ∃ after, add before path obj = some after)
    (index : CFGIndex Pri) :
    ∃ enough index', ∀ fuel, enough ≤ fuel →
      loadObjects checkout.backend directory.text decode add fuel ('/' :: rel) checkout.version index =
        some (.ok index') := by
  obtain ⟨node, found, -⟩ := readable.1
  have located := (checkout.nodeAt_walk directory single named).mpr found
  refine loadObjects_at_succeeds accepted located ((readable_found found).mpr (readable.mono ?_)) index
  intro bytes ⟨obj, decoded, addable⟩
  refine ⟨obj, decoded, fun index path => ?_⟩
  obtain ⟨rest, starts⟩ : Starts directory (Path.join ('/' :: directory.text) rel) := starts_walk single
  have deeper : Starts directory (Path.join ('/' :: directory.text) rel ++ path) := by
    rw [← starts, List.append_assoc]
    exact List.prefix_append _ _
  obtain ⟨key, stripped⟩ := Option.isSome_iff_exists.mp (stripPrefix_of_starts deeper)
  obtain ⟨after, added⟩ := addable index key
  exact ⟨after, by rw [placed, addAt, stripped, Option.bind_some, added]⟩

theorem Checkout.loader_frame {β : Type} (part : CFGIndex Pri → β)
    (keeps : ∀ index path obj index', add index path obj = some index' → part index' = part index)
    (loaded : loadObjects checkout.backend directory.text decode add fuel ('/' :: rel) checkout.version index =
      some (.ok index')) : part index' = part index := by
  obtain ⟨-, files, -, -, added⟩ := checkout.loader_ok accepted single named loaded
  refine addAll_frame ?_ added
  intro index path obj index' one
  unfold placed addAt at one
  obtain ⟨key, -, one⟩ := Option.bind_eq_some_iff.mp one
  exact keeps index key obj index' one

theorem Checkout.loader_stored {Entry : Type} {get : CFGIndex Pri → Str → Option Entry} {entry : Str → Obj → Entry}
    (keys : Keys directory rel before) (stores : Stores add get entry) (fresh : ∀ key, get index key = none)
    (loaded : loadObjects checkout.backend directory.text decode add fuel ('/' :: rel) checkout.version index =
      some (.ok index')) (key : Str) (value : Entry) :
    get index' key = some value ↔
      ∃ path bytes obj, checkout.tree.find (directory :: names ++ path) = some (.file (.ok bytes)) ∧
        decode bytes = .ok obj ∧ key = keyOf before path ∧ value = entry key obj := by
  obtain ⟨readable, files, perm, proper, added⟩ := checkout.loader_ok accepted single named loaded
  obtain ⟨node, found, -⟩ := readable.1
  have distinct : (files.map fun file => keyOf before file.1).Nodup := by
    have paths : (files.map Prod.fst).Nodup := by
      rw [(perm.map Prod.fst).nodup_iff, filesAt, found]
      exact node.files_nodup
    refine (List.map_map ▸ paths.map_on fun first member second other same => ?_ :
      (files.map (keyOf before ∘ Prod.fst)).Nodup)
    obtain ⟨file, listed, rfl⟩ := List.mem_map.mp member
    obtain ⟨file', listed', rfl⟩ := List.mem_map.mp other
    exact keyOf_injective keys.plain (proper file listed) (proper file' listed') same
  exact addAll_placed_iff stores fresh (keyOf before) ⟨node, found⟩ perm
    (fun file member => placed_eq keys (proper file member)) distinct added key value

end Loader

/-! ## The index of a namespace -/

section Index

variable {checkout : Checkout} {before : FileName → List Str}

/-- Every file of the namespace can be read, and what it holds be added. -/
structure Sound (crates : Crates Pri) (tree : Node) (names : List FileName) : Prop where
  rules : Readable tree (rulesName :: names) fun bytes => ∃ ruleObj, Rule.loadFromSlice crates bytes = .ok ruleObj
  links : Readable tree (linksName :: names) fun bytes =>
    ∃ linkObj, Link.loadFromSlice crates bytes = .ok linkObj ∧ Sliceable linkObj
  reses : Readable tree (resesName :: names) fun bytes => ∃ resObj, Res.loadFromSlice crates bytes = .ok resObj

/-- The index holds the files below the directories of the namespace under their keys. -/
structure Filed (crates : Crates Pri) (tree : Node) (names : List FileName) (before : FileName → List Str)
    (index : CFGIndex Pri) : Prop where
  rules : ∀ key item, index.ruleStor.storage.lookup key = some item ↔
    ∃ path bytes ruleObj, tree.find (rulesName :: names ++ path) = some (.file (.ok bytes)) ∧
      Rule.loadFromSlice crates bytes = .ok ruleObj ∧ key = keyOf (before rulesName) path ∧
      item = ruleEntry key ruleObj
  reses : ∀ key res, index.resStor.getResByPath key = some res ↔
    ∃ path bytes resObj, tree.find (resesName :: names ++ path) = some (.file (.ok bytes)) ∧
      Res.loadFromSlice crates bytes = .ok resObj ∧ key = keyOf (before resesName) path ∧
      res = resEntry key resObj
  links : ∀ rulePath, (itemsAt index.linkStor rulePath).Perm ((filesAt tree (linksName :: names)).flatMap
    fun file => linkItemsAt crates (keyOf (before linksName) file.1) rulePath file.2)

variable (accepted : CFGCenterInner.validNamespace ('/' :: rel) = true)
  (single : ¬ ['/', '/'] <+: '/' :: rel) (named : NamedBy names ('/' :: rel))

include accepted single named

theorem Checkout.load_filed (keys : ∀ directory, Keys directory rel (before directory))
    (loaded : checkout.load crates fuel ('/' :: rel) = some (.ok index)) :
    Sound crates checkout.tree names ∧ Filed crates checkout.tree names before index := by
  obtain ⟨withRules, rulesLoaded, rest⟩ := thenLoad_eq_ok.mp loaded
  obtain ⟨withLinks, linksLoaded, resesLoaded⟩ := thenLoad_eq_ok.mp rest
  have first : loadObjects checkout.backend rulesName.text (Rule.loadFromSlice crates) CFGIndex.addRule fuel
      ('/' :: rel) checkout.version .empty = some (.ok withRules) := rulesLoaded
  have second : loadObjects checkout.backend linksName.text (Link.loadFromSlice crates) CFGIndex.addLink fuel
      ('/' :: rel) checkout.version withRules = some (.ok withLinks) := linksLoaded
  have third : loadObjects checkout.backend resesName.text (Res.loadFromSlice crates) CFGIndex.addRes fuel
      ('/' :: rel) checkout.version withLinks = some (.ok index) := resesLoaded
  have rulesFrame : (withRules.linkStor, withRules.resStor) = (LinkIndex.empty, ResIndex.empty) :=
    checkout.loader_frame accepted single named (fun index => (index.linkStor, index.resStor)) (by
      intro _ _ _ _ added
      cases added
      rfl) first
  have linksFrame : (withLinks.ruleStor, withLinks.resStor) = (withRules.ruleStor, withRules.resStor) :=
    checkout.loader_frame accepted single named (fun index => (index.ruleStor, index.resStor)) (by
      intro _ _ _ _ added
      obtain ⟨_, -, rfl⟩ := Option.map_eq_some_iff.mp added
      rfl) second
  have resesFrame : (index.ruleStor, index.linkStor) = (withLinks.ruleStor, withLinks.linkStor) :=
    checkout.loader_frame accepted single named (fun index => (index.ruleStor, index.linkStor)) (by
      intro _ _ _ _ added
      cases added
      rfl) third
  simp only [Prod.mk.injEq] at rulesFrame linksFrame resesFrame
  obtain ⟨rulesRead, -⟩ := checkout.loader_ok accepted single named first
  obtain ⟨linksRead, files, perm, proper, added⟩ := checkout.loader_ok accepted single named second
  obtain ⟨resesRead, -⟩ := checkout.loader_ok accepted single named third
  constructor
  · exact {
      rules := rulesRead.mono fun bytes ⟨ruleObj, _, _, _, decoded, _⟩ => ⟨ruleObj, decoded⟩
      links := linksRead.mono fun bytes ⟨linkObj, _, _, _, decoded, one⟩ => by
        obtain ⟨linkStor, linked, -⟩ := Option.map_eq_some_iff.mp one
        exact ⟨linkObj, decoded, (addLink_eq_some linked).1⟩
      reses := resesRead.mono fun bytes ⟨resObj, _, _, _, decoded, _⟩ => ⟨resObj, decoded⟩ }
  · exact {
      rules := by
        rw [resesFrame.1, linksFrame.1]
        exact checkout.loader_stored accepted single named (keys rulesName) stores_rule (fun _ => rfl) first
      reses := checkout.loader_stored accepted single named (keys resesName) stores_res
        (fun key => by rw [linksFrame.2, rulesFrame.2]; rfl) third
      links := by
        intro rulePath
        have items := addAll_placed_links (keyOf (before linksName))
          (fun file member => placed_eq (keys linksName) (proper file member)) added rulePath
        rw [rulesFrame.1] at items
        rw [resesFrame.2, items]
        exact perm.flatMap_right _ }

theorem Checkout.loads_iff (crates : Crates Pri) :
    checkout.Loads crates ('/' :: rel) ↔ Sound crates checkout.tree names := by
  constructor
  · intro ⟨fuel, index, loaded⟩
    choose before keys using fun directory => exists_keys directory single accepted
    exact (checkout.load_filed accepted single named keys loaded).1
  · intro sound
    exact load_of_loaders
      (checkout.loader_succeeds accepted single named rulesName
        (sound.rules.mono fun bytes ⟨ruleObj, decoded⟩ => ⟨ruleObj, decoded, fun _ _ => ⟨_, rfl⟩⟩))
      (checkout.loader_succeeds accepted single named linksName
        (sound.links.mono fun bytes ⟨linkObj, decoded, sliceable⟩ => ⟨linkObj, decoded, addLink_succeeds sliceable⟩))
      (checkout.loader_succeeds accepted single named resesName
        (sound.reses.mono fun bytes ⟨resObj, decoded⟩ => ⟨resObj, decoded, fun _ _ => ⟨_, rfl⟩⟩))

end Index

end Eafcc.CfgCenter
