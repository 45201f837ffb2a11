import Eafcc.CfgCenter.NamespacePrefix
import Eafcc.Storage.Simulation

namespace Eafcc.CfgCenter

open Eafcc.RuleEngine Eafcc.Model Eafcc.Storage

/-! # Loaders over trees that are listed alike -/

variable {Pri : Type} {ns : Str} {rel rel' path path' : Path} {directory directory' : FileName}

/-! ## Accepted namespaces as paths -/

theorem below_nil (ends : path.getLast? = some '/') : below path [] = path := by
  have nonempty : path ≠ [] := by
    rintro rfl
    cases ends
  rw [below, FileSystem.join_relative nonempty rfl, FileSystem.withSeparator, if_pos ends]
  simp [relativePath, List.intercalate]

/-- The path that a loader walks over ends with a separator. -/
theorem walk_ends (accepted : CFGCenterInner.validNamespace ('/' :: rel) = true) (directory : FileName) :
    (Path.join ('/' :: directory.text) rel).getLast? = some '/' := by
  simp only [CFGCenterInner.validNamespace, Bool.and_eq_true, decide_eq_true_eq] at accepted
  have ends := accepted.2
  cases absolute : Path.isAbsolute rel with
  | true =>
      rw [join_replaced _ absolute]
      cases rel with
      | nil => cases absolute
      | cons c text => simpa [List.getLast?_cons_cons] using ends
  | false =>
      rw [join_directory directory absolute]
      cases rel with
      | nil => rw [List.append_nil, ← List.cons_append, List.getLast?_concat]
      | cons c text =>
          rw [List.getLast?_cons_cons] at ends
          rw [List.getLast?_append_of_ne_nil _ (by simp), ends]

theorem walk_absolute (directory : FileName) (rel : Path) :
    Path.isAbsolute (Path.join ('/' :: directory.text) rel) = true := by
  cases absolute : Path.isAbsolute rel with
  | true => rw [join_replaced _ absolute, absolute]
  | false =>
      rw [join_directory directory absolute]
      rfl

/-! ## What a file adds -/

section Objects

variable {Obj : Type} {decode : Bytes → Except DataLoaderError Obj}
  {add add' : CFGIndex Pri → Str → Obj → Option (CFGIndex Pri)} {fs fs' : FileSystem}
  {files files' : FilesystemBackend} {version version' : VersionItem} {node node' : Node}

/-- What an object adds that is found at a path. -/
def addAt (directory : FileName) (add : CFGIndex Pri → Str → Obj → Option (CFGIndex Pri)) (path : Path)
    (index : CFGIndex Pri) (obj : Obj) : Option (CFGIndex Pri) :=
  (Path.stripPrefix path [directory.text]).bind fun key => add index key obj

theorem indexFile_eq (backend : StorageBackend) (index : CFGIndex Pri) (path : Path) (isDir : Bool) (hash : ObjectID) :
    indexFile backend directory.text decode add index { absPath := path, isDir, hash } =
      if isDir then (index, .ok .next)
      else
        match backend.getObjByHash hash with
        | .error reason => (index, Rust.fail (.storageBackendError reason))
        | .ok rawData =>
            match decode rawData with
            | .error reason => (index, Rust.fail (.dataLoaderError reason))
            | .ok obj =>
                match addAt directory add path index obj with
                | none => (index, Rust.panics)
                | some index => (index, .ok .next) := by
  cases isDir with
  | true => rfl
  | false =>
      simp only [indexFile, addAt, Bool.false_eq_true, if_false]
      cases backend.getObjByHash hash with
      | error reason => rfl
      | ok rawData =>
          cases decoded : decode rawData with
          | error reason => simp only [decoded]
          | ok obj =>
              simp only [decoded]
              cases Path.stripPrefix path [directory.text] <;> rfl

/-- A loader ends where the path that it walks over cannot be listed. -/
theorem loadObjects_unlisted {reason : StorageBackendError}
    (unlisted : files.listDir fs version (Path.join ('/' :: directory.text) rel) = .error reason)
    (fuel : Nat) (index : CFGIndex Pri) :
    loadObjects (files.toStorageBackend fs) directory.text decode add fuel ('/' :: rel) version index =
      if fuel = 0 then none else some (Rust.fail (.storageBackendError reason)) := by
  cases fuel with
  | zero => rfl
  | succ fuel =>
      simp only [loadObjects, FilesystemBackend.walkDir_eq, walkLoop, unlisted]
      rfl

theorem loadObjects_found {fuel : Nat} {index index' : CFGIndex Pri}
    (loaded : loadObjects (files.toStorageBackend fs) directory.text decode add fuel ('/' :: rel) version index =
      some (.ok index')) : ∃ node, files.nodeAt fs version (Path.join ('/' :: directory.text) rel) = .ok node := by
  cases found : files.nodeAt fs version (Path.join ('/' :: directory.text) rel) with
  | ok node => exact ⟨node, rfl⟩
  | error reason =>
      rw [loadObjects_unlisted (FilesystemBackend.listDir_error found)] at loaded
      split at loaded <;> cases loaded

/-- Two loaders have the same result over trees that are listed alike, if their files
add the same. -/
theorem loadObjects_alike (accepted : CFGCenterInner.validNamespace ('/' :: rel) = true)
    (accepted' : CFGCenterInner.validNamespace ('/' :: rel') = true)
    (found : files.nodeAt fs version (Path.join ('/' :: directory.text) rel) = .ok node)
    (found' : files'.nodeAt fs' version' (Path.join ('/' :: directory'.text) rel') = .ok node')
    (same : node.SameListing node')
    (adds : ∀ names content, names ≠ [] → node.find names = some (.file content) → ∀ index obj,
      addAt directory add (below (Path.join ('/' :: directory.text) rel) names) index obj =
        addAt directory' add' (below (Path.join ('/' :: directory'.text) rel') names) index obj)
    (fuel : Nat) (index : CFGIndex Pri) :
    loadObjects (files.toStorageBackend fs) directory.text decode add fuel ('/' :: rel) version index =
      loadObjects (files'.toStorageBackend fs') directory'.text decode add' fuel ('/' :: rel') version' index := by
  have start := below_nil (walk_ends accepted directory)
  have start' := below_nil (walk_ends accepted' directory')
  rw [← start] at found
  rw [← start'] at found'
  have walks : walkLoop (indexFile (files.toStorageBackend fs) directory.text decode add)
      (files.listDir fs version) fuel [below (Path.join ('/' :: directory.text) rel) []] index =
      walkLoop (indexFile (files'.toStorageBackend fs') directory'.text decode add') (files'.listDir fs' version')
        fuel [below (Path.join ('/' :: directory'.text) rel') []] index := by
    refine walkDir_alike (walk_absolute directory rel) (walk_absolute directory' rel') ?_ found found' same _ _
    intro names nonempty reached reached' located alike hash hash' reads reads' index
    rw [indexFile_eq, indexFile_eq, alike.isDir]
    match reached, reached' with
    | .dir _ _ _, .dir _ _ _ => rfl
    | .file content, .file content' =>
        obtain rfl : content = content' := alike
        simp only [FilesystemBackend.toStorageBackend, StorageBackend.withDefaultWalk, reads content rfl,
          reads' content rfl, adds names content nonempty located]
  rw [start, start'] at walks
  simp only [loadObjects, FilesystemBackend.walkDir_eq]
  exact congrArg _ walks

end Objects

/-! ## A tree of its own -/

section Lone

def loneName : FileName := ⟨['v'], plain_v⟩

/-- The tree that holds a node in a directory and nothing else. -/
def loneTree (directory : FileName) (node : Node) : Node := .dir none ⟨[directory], by simp⟩ fun _ => node

def loneSystem (directory : FileName) (node : Node) : FileSystem where
  root := .dir none ⟨[loneName], List.nodup_singleton loneName⟩ fun _ => loneTree directory node
  cwd := []

def loneBackend (directory : FileName) (node : Node) : StorageBackend :=
  (⟨['/']⟩ : FilesystemBackend).toStorageBackend (loneSystem directory node)

def loneVersion : VersionItem := { name := ['v'], id := toUtf8 ['v'] }

variable {Obj : Type} {decode : Bytes → Except DataLoaderError Obj}
  {add : CFGIndex Pri → Str → Obj → Option (CFGIndex Pri)} {fs : FileSystem}
  {files : FilesystemBackend} {version : VersionItem} {node : Node}

theorem loneSystem_resolves (directory : FileName) (node : Node) :
    (loneSystem directory node).resolve (Path.join ['/'] ['v']) = .ok (loneTree directory node) := rfl

theorem lone_serves (directory : FileName) (node : Node) :
    ∃ hash, Serves (loneBackend directory node) loneVersion (loneTree directory node) hash :=
  ⟨_, FilesystemBackend.serves (fromUtf8_toUtf8 _) (loneSystem_resolves directory node)⟩

theorem find_loneTree (directory : FileName) (node : Node) (path : List FileName) :
    (loneTree directory node).find (directory :: path) = node.find path := by
  simp [loneTree, Node.find]

theorem below_directory (directory : FileName) {names : List FileName} (nonempty : names ≠ []) :
    below (Path.join ('/' :: directory.text) []) names = filePath (directory :: names) := by
  have ends : (Path.join ('/' :: directory.text) []).getLast? = some '/' := by
    rw [join_directory directory rfl, List.append_nil, ← List.cons_append, List.getLast?_concat]
  have proper : Path.join ('/' :: directory.text) [] ≠ [] := by
    intro empty
    rw [empty] at ends
    cases ends
  rw [below, FileSystem.join_relative proper (FileSystem.relativePath_not_absolute names),
    FileSystem.withSeparator, if_pos ends, join_directory directory rfl, filePath_eq_relativePath (by simp)]
  obtain ⟨name, rest, rfl⟩ := List.exists_cons_of_ne_nil nonempty
  simp [relativePath, List.intercalate]

/-- What an object adds that is found at a path below the one that the loader walks over. -/
def placed (directory : FileName) (path : Path) (add : CFGIndex Pri → Str → Obj → Option (CFGIndex Pri))
    (index : CFGIndex Pri) (key : Str) (obj : Obj) : Option (CFGIndex Pri) :=
  addAt directory add (path ++ key) index obj

/-- A loader does on a tree of its own what it does wherever the node stands. -/
theorem loadObjects_lone (accepted : CFGCenterInner.validNamespace ('/' :: rel) = true)
    (found : files.nodeAt fs version (Path.join ('/' :: directory.text) rel) = .ok node)
    (fuel : Nat) (index : CFGIndex Pri) :
    loadObjects (files.toStorageBackend fs) directory.text decode add fuel ('/' :: rel) version index =
      loadObjects (loneBackend directory node) directory.text decode
        (placed directory (Path.join ('/' :: directory.text) rel) add) fuel (namespaceText []) loneVersion index := by
  have lone : (⟨['/']⟩ : FilesystemBackend).nodeAt (loneSystem directory node) loneVersion
      (Path.join ('/' :: directory.text) []) = .ok node := by
    have written : (Path.segments (Path.join ('/' :: directory.text) [])).filter
        (fun segment => !Path.isTrivial segment) = [directory].map FileName.text := by
      rw [join_directory directory rfl, List.append_nil]
      change (Path.segments ([] ++ '/' :: (directory.text ++ '/' :: []))).filter _ = _
      rw [Path.segments_separated, Path.segments_separated, Path.segments_single directory.plain.2.1]
      simp [Path.segments, isTrivial_fileName, show Path.isTrivial [] = true from rfl]
    refine (FilesystemBackend.nodeAt_names (fromUtf8_toUtf8 _) (loneSystem_resolves directory node)
      (walk_absolute directory []) (by simp) written).mpr ?_
    rw [find_loneTree]
    simp [Node.find]
  apply loadObjects_alike accepted rfl found lone (Node.SameListing.refl node)
  intro names content nonempty _ index obj
  have ends := walk_ends accepted directory
  have proper : Path.join ('/' :: directory.text) rel ≠ [] := by
    intro empty
    rw [empty] at ends
    cases ends
  rw [below_directory directory nonempty, addAt, addAt, stripPrefix_filePath directory names, Option.bind_some,
    placed, addAt, below, FileSystem.join_relative proper (FileSystem.relativePath_not_absolute names),
    FileSystem.withSeparator, if_pos ends]

theorem readable_loneTree {decodes : Bytes → Prop} : Readable (loneTree directory node) [directory] decodes ↔
    node.isDir = true ∧ node.Listable ∧
      ∀ path content, node.find path = some (.file content) → ∃ bytes, content = .ok bytes ∧ decodes bytes := by
  have here : (loneTree directory node).find [directory] = some node := by
    rw [find_loneTree]
    simp [Node.find]
  simp only [Readable, Walkable, here, Option.some.injEq, exists_eq_left', List.singleton_append, find_loneTree,
    and_assoc]

/-- What a loader that succeeds has found. -/
theorem loadObjects_at_ok {index index' : CFGIndex Pri} {fuel : Nat}
    (accepted : CFGCenterInner.validNamespace ('/' :: rel) = true)
    (found : files.nodeAt fs version (Path.join ('/' :: directory.text) rel) = .ok node)
    (loaded : loadObjects (files.toStorageBackend fs) directory.text decode add fuel ('/' :: rel) version index =
      some (.ok index')) :
    (Readable (loneTree directory node) [directory] fun bytes =>
      ∃ obj before path after, decode bytes = .ok obj ∧
        placed directory (Path.join ('/' :: directory.text) rel) add before path obj = some after) ∧
    ∃ entries, List.Perm entries node.files ∧
      addAll decode (placed directory (Path.join ('/' :: directory.text) rel) add) [] entries index = some index' := by
  rw [loadObjects_lone accepted found] at loaded
  obtain ⟨hash, serves⟩ := lone_serves directory node
  obtain ⟨-, entries, perm, added⟩ := loadObjects_ok serves loaded
  refine ⟨loadObjects_readable serves loaded, entries, ?_, added⟩
  have here : filesAt (loneTree directory node) [directory] = node.files := by
    rw [filesAt, find_loneTree]
    simp [Node.find]
  rwa [here] at perm

theorem loadObjects_at_succeeds (accepted : CFGCenterInner.validNamespace ('/' :: rel) = true)
    (found : files.nodeAt fs version (Path.join ('/' :: directory.text) rel) = .ok node)
    (readable : Readable (loneTree directory node) [directory] fun bytes => ∃ obj, decode bytes = .ok obj ∧
      ∀ before path, ∃ after,
        placed directory (Path.join ('/' :: directory.text) rel) add before path obj = some after)
    (index : CFGIndex Pri) :
    ∃ enough index', ∀ fuel, enough ≤ fuel →
      loadObjects (files.toStorageBackend fs) directory.text decode add fuel ('/' :: rel) version index =
        some (.ok index') := by
  obtain ⟨hash, serves⟩ := lone_serves directory node
  simp only [loadObjects_lone accepted found]
  exact loadObjects_succeeds directory serves readable index

end Lone

/-! ## Keys of the files below a directory -/

section Keys

variable {before : List Str} {names : List FileName}

theorem trimSegments_names (before : List Str) (nonempty : names ≠ []) :
    Path.trimSegments (before ++ names.map FileName.text) =
      before.dropWhile Path.isTrivial ++ names.map FileName.text := by
  have plain := isTrivial_names names
  have dropped : (before ++ names.map FileName.text).dropWhile Path.isTrivial =
      before.dropWhile Path.isTrivial ++ names.map FileName.text := by
    rw [List.dropWhile_append]
    split
    · rename_i empty
      rw [List.isEmpty_iff.mp empty, List.nil_append]
      obtain ⟨name, rest, rfl⟩ := List.exists_cons_of_ne_nil nonempty
      exact List.dropWhile_cons_of_neg (by simp [isTrivial_fileName])
    · rfl
  obtain ⟨init, last, rfl⟩ := (List.eq_nil_or_concat' names).resolve_left nonempty
  rw [Path.trimSegments, dropped, List.map_append, List.map_singleton, ← List.append_assoc, List.reverse_concat,
    List.dropWhile_cons_of_neg (by simp [isTrivial_fileName]), List.reverse_cons, List.reverse_reverse]

/-- The key of a file below the path that a loader walks over. -/
def keyOf (before : List Str) (names : List FileName) : Str :=
  ['/'].intercalate (before.dropWhile Path.isTrivial ++ names.map FileName.text)

theorem keyOf_injective (plain : ∀ segment ∈ before, '/' ∉ segment) {names' : List FileName} (nonempty : names ≠ [])
    (nonempty' : names' ≠ []) (same : keyOf before names = keyOf before names') : names = names' := by
  have splits : ∀ names : List FileName, names ≠ [] → (keyOf before names).splitOn '/' =
      before.dropWhile Path.isTrivial ++ names.map FileName.text := by
    intro names nonempty
    apply List.splitOn_intercalate
    · intro segment member
      rcases List.mem_append.mp member with member | member
      · exact plain segment ((List.dropWhile_sublist _).mem member)
      · obtain ⟨name, -, rfl⟩ := List.mem_map.mp member
        exact name.plain.2.1
    · simp [nonempty]
  have segments := congrArg (fun text => text.splitOn '/') same
  simp only [splits names nonempty, splits names' nonempty'] at segments
  exact List.map_injective_iff.mpr FileName.text_injective (List.append_cancel_left segments)

theorem segments_walk (directory : FileName) (relative : Path.isAbsolute rel = false) :
    Path.segments (Path.join ('/' :: directory.text) rel) = [] :: directory.text :: Path.segments rel := by
  have written : '/' :: (directory.text ++ ['/']) ++ rel = [] ++ '/' :: (directory.text ++ '/' :: rel) := by simp
  rw [join_directory directory relative, written, Path.segments_separated, Path.segments_separated,
    Path.segments_single directory.plain.2.1]
  rfl

/-- A loader strips its directory off the paths below the one that it walks over. -/
structure Keys (directory : FileName) (rel : Path) (before : List Str) : Prop where
  plain : ∀ segment ∈ before, '/' ∉ segment
  strips : ∀ names : List FileName, names ≠ [] →
    Path.stripPrefix (Path.join ('/' :: directory.text) rel ++ relativePath names) [directory.text] =
      some (keyOf before names)

theorem exists_keys (directory : FileName) (single : ¬ ['/', '/'] <+: '/' :: rel)
    (accepted : CFGCenterInner.validNamespace ('/' :: rel) = true) : ∃ before, Keys directory rel before := by
  obtain ⟨stem, whole⟩ := List.getLast?_eq_some_iff.mp (walk_ends accepted directory)
  have cut := segments_walk directory (relative_of_single single)
  have segments : ∃ before, Path.segments stem = [] :: directory.text :: before := by
    obtain ⟨before, last, ending⟩ :=
      (List.eq_nil_or_concat' (Path.segments rel)).resolve_left (List.splitOn_ne_nil _ _)
    rw [whole, Path.segments_separated, ending] at cut
    have aligned : Path.segments stem ++ [[]] = ([] :: directory.text :: before) ++ [last] := cut
    exact ⟨before, (List.append_inj' aligned rfl).1⟩
  obtain ⟨before, segments⟩ := segments
  refine ⟨before, fun segment member => Path.segment_plain stem segment (by simp [segments, member]),
    fun names nonempty => ?_⟩
  have absolute : Path.isAbsolute (stem ++ '/' :: relativePath names) = true := by
    have leads := walk_absolute directory rel
    rw [whole] at leads
    cases stem with
    | nil => rfl
    | cons c text => exact leads
  rw [whole, List.append_assoc, List.singleton_append, Path.stripPrefix, if_pos absolute, Path.segments_separated,
    segments, segments_relativePath nonempty]
  simp [Path.stripSegments, isTrivial_fileName, show Path.isTrivial [] = true from rfl,
    trimSegments_names before nonempty, keyOf]

end Keys

end Eafcc.CfgCenter
