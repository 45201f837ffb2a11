import Eafcc.Storage.Walk

namespace Eafcc.Storage

open Eafcc.Model

/-! # The filesystem backend -/

/-! ## Files as the operating system finds them -/

/-- The whole tree of a file system without links, and the directory that
relative paths start from. -/
structure FileSystem where
  root : Node
  cwd : List FileName

namespace FileSystem

def notFound : IOError := ⟨.notFound, "No such file or directory".toList⟩
def notADirectory : IOError := ⟨.notADirectory, "Not a directory".toList⟩
def isADirectory : IOError := ⟨.isADirectory, "Is a directory".toList⟩

/-- One segment of a path. The directories on the way are kept for `..`. -/
def step : List Node → Str → Except IOError (List Node)
  | .dir failure names child :: parents, segment =>
      if Path.isTrivial segment then .ok (.dir failure names child :: parents)
      else if segment = ['.', '.'] then
        .ok (if parents = [] then [.dir failure names child] else parents)
      else
        match names.val.find? fun name => name.text == segment with
        | some name => .ok (child name :: .dir failure names child :: parents)
        | none => .error notFound
  | .file _ :: _, _ => .error notADirectory
  | [], _ => .error notFound

def follow (trail : List Node) (segments : List Str) : Except IOError (List Node) :=
  segments.foldlM step trail

def start (fs : FileSystem) (path : Path) : Except IOError (List Node) :=
  if Path.isAbsolute path then .ok [fs.root] else follow [fs.root] (fs.cwd.map FileName.text)

def resolve (fs : FileSystem) (path : Path) : Except IOError Node :=
  if path = [] then .error notFound
  else do
    let trail ← fs.start path
    match ← follow trail (Path.segments path) with
    | node :: _ => .ok node
    | [] => .error notFound

def read (fs : FileSystem) (path : Path) : Except IOError Bytes := do
  match ← fs.resolve path with
  | .file content => content
  | .dir _ _ _ => .error isADirectory

def readDir (fs : FileSystem) (path : Path) : Except IOError (List FileName) := do
  match ← fs.resolve path with
  | .file _ => .error notADirectory
  | .dir none names _ => .ok names.val
  | .dir (some cause) _ _ => .error cause

/-- A path that does not resolve is not one of a directory. -/
def isDir (fs : FileSystem) (path : Path) : Bool :=
  match fs.resolve path with
  | .ok node => node.isDir
  | .error _ => false

end FileSystem

/-! ## The backend -/

def toUtf8 (text : Str) : Bytes := (String.ofList text).toUTF8

def fromUtf8 (bytes : Bytes) : Option Str := (String.fromUTF8? bytes).map String.toList

structure FilesystemBackend where
  basePath : Path

namespace FilesystemBackend

def getVersionedPath (backend : FilesystemBackend) (version : VersionItem) (path : Path) :
    Except StorageBackendError Path :=
  match fromUtf8 version.id with
  | none => .error .utf8Error
  | some id =>
      let t := Path.join backend.basePath id
      match Path.stripPrefix path [] with
      | some relative => .ok (Path.join t relative)
      | none => .ok (Path.join t path)

def getObjByHash (fs : FileSystem) (hash : ObjectID) : Except StorageBackendError Bytes :=
  match fromUtf8 hash with
  | none => .error (.ioError ⟨.other, "invalid path".toList⟩)
  | some path =>
      match fs.read path with
      | .ok content => .ok content
      | .error cause => .error (.ioError cause)

/-- File names are texts, so the source's error for other names does not arise. -/
def listDir (backend : FilesystemBackend) (fs : FileSystem) (version : VersionItem) (path : Path) :
    Except StorageBackendError (List DirItem) :=
  match backend.getVersionedPath version path with
  | .error reason => .error reason
  | .ok realFsAbsPath =>
      match fs.readDir realFsAbsPath with
      | .error cause => .error (.ioError cause)
      | .ok filenames =>
          .ok (filenames.map fun filename =>
            let newFsAbsPath := Path.join realFsAbsPath filename.text
            { absPath := Path.join path filename.text
              isDir := fs.isDir newFsAbsPath
              hash := toUtf8 newFsAbsPath })

def toStorageBackend (backend : FilesystemBackend) (fs : FileSystem) : StorageBackend :=
  .withDefaultWalk (getObjByHash fs) (backend.listDir fs)

theorem toStorageBackend_walks (backend : FilesystemBackend) (fs : FileSystem) :
    (backend.toStorageBackend fs).WalksByDefault := fun _ _ _ _ _ _ => rfl

theorem walkDir_eq (backend : FilesystemBackend) (fs : FileSystem) {σ : Type}
    (cb : σ → DirItem → σ × Rust WalkDirError WalkRetCtl) (fuel : Nat) (version : VersionItem) (path : Path) (s : σ) :
    (backend.toStorageBackend fs).walkDir cb fuel version path s =
      walkLoop cb (backend.listDir fs version) fuel [path] s := rfl

end FilesystemBackend

/-! ## The file that names the current version -/

/-- The characters that `str::trim` takes for white space. -/
def isWhitespace (c : Char) : Bool :=
  (9 ≤ c.toNat && c.toNat ≤ 13) || c.toNat == 0x20 || c.toNat == 0x85 || c.toNat == 0xA0 ||
    c.toNat == 0x1680 || (0x2000 ≤ c.toNat && c.toNat ≤ 0x200A) || c.toNat == 0x2028 ||
    c.toNat == 0x2029 || c.toNat == 0x202F || c.toNat == 0x205F || c.toNat == 0x3000

def trim (text : Str) : Str := ((text.dropWhile isWhitespace).reverse.dropWhile isWhitespace).reverse

/-- The version that the file names, from what reading the file gives. -/
def readVersionFromFs (content : Except IOError Bytes) : Except StorageBackendError VersionItem :=
  match content with
  | .error cause => .error (.ioError cause)
  | .ok t =>
      match fromUtf8 t with
      | none => .error .utf8Error
      | some text => .ok { name := trim text, id := toUtf8 (trim text) }

/-! ## The backend serves the tree below a version's directory -/

theorem fromUtf8_toUtf8 (text : Str) : fromUtf8 (toUtf8 text) = some text := by
  have valid : (toUtf8 text).IsValidUTF8 := (String.ofList text).isValidUTF8
  unfold fromUtf8 String.fromUTF8?
  rw [dif_pos valid, Option.map_some]
  congr 1
  change (String.ofList text).toList = text
  simp

namespace FileSystem

variable {fs : FileSystem} {node : Node} {parents trail : List Node} {base : Path}

theorem step_name (failure : Option IOError) (entries : Listing) (child : FileName → Node)
    (parents : List Node) (name : FileName) :
    step (.dir failure entries child :: parents) name.text =
      if name ∈ entries.val then .ok (child name :: .dir failure entries child :: parents)
      else .error notFound := by
  have notParent : name.text ≠ ['.', '.'] := name.plain.2.2.2
  simp only [step, isTrivial_fileName, Bool.false_eq_true, if_false, if_neg notParent]
  split
  · rename_i found sought
    have same : found = name := FileName.text_injective (by simpa using List.find?_some sought)
    subst same
    rw [if_pos (List.mem_of_find?_eq_some sought)]
  · rename_i missing
    have absent : name ∉ entries.val := fun listed => by
      simpa using List.find?_eq_none.mp missing name listed
    rw [if_neg absent]

/-- Following plain names leads to the node that they name. -/
theorem follow_names (node : Node) (parents : List Node) (names : List FileName) (found : Node) :
    (∃ trail, follow (node :: parents) (names.map FileName.text) = .ok (found :: trail)) ↔
      node.find names = some found := by
  induction names generalizing node parents with
  | nil =>
      simp only [follow, List.map_nil, List.foldlM_nil, Node.find, Option.some.injEq]
      constructor
      · rintro ⟨trail, same⟩
        exact (List.cons.inj (Except.ok.inj same)).1
      · rintro rfl
        exact ⟨parents, rfl⟩
  | cons name rest ih =>
      cases node with
      | file content =>
          simp only [follow, List.map_cons, List.foldlM_cons, step, Node.find]
          constructor
          · rintro ⟨_, failed⟩
            exact absurd failed (by simp [bind, Except.bind])
          · simp
      | dir failure entries child =>
          simp only [follow, List.map_cons, List.foldlM_cons, step_name, Node.find]
          split
          · exact ih (child name) (.dir failure entries child :: parents)
          · constructor
            · rintro ⟨_, failed⟩
              exact absurd failed (by simp [bind, Except.bind])
            · simp

theorem follow_append (trail : List Node) (first second : List Str) :
    follow trail (first ++ second) = (follow trail first).bind fun middle => follow middle second := by
  simp [follow, List.foldlM_append, bind]

theorem follow_trivial {segment : Str} (trivial : Path.isTrivial segment = true) (node : Node)
    (parents : List Node) :
    follow (node :: parents) [segment] =
      if node.isDir then .ok (node :: parents) else .error notADirectory := by
  cases node with
  | file content => rfl
  | dir failure entries child => simp [follow, step, trivial, Node.isDir, bind, Except.bind, pure,
      Except.pure]

/-- The text of a directory's path with a separator at its end. -/
def withSeparator (base : Path) : Path :=
  if base.getLast? = some '/' then base else base ++ ['/']

theorem exists_withSeparator (base : Path) : ∃ stem, withSeparator base = stem ++ ['/'] ∧
    (Path.segments base = Path.segments stem ∨ Path.segments base = Path.segments stem ++ [[]]) := by
  unfold withSeparator
  split
  · rename_i ends
    obtain ⟨stem, rfl⟩ := List.getLast?_eq_some_iff.mp ends
    refine ⟨stem, rfl, .inr ?_⟩
    rw [Path.segments, List.splitOn_append_cons_self]
    rfl
  · exact ⟨base, rfl, .inl rfl⟩

theorem join_relative {path : Path} (nonempty : base ≠ []) (relative : Path.isAbsolute path = false) :
    Path.join base path = withSeparator base ++ path := by
  by_cases ends : base.getLast? = some '/' <;>
    simp [Path.join, relative, nonempty, withSeparator, ends]

theorem relativePath_not_absolute (names : List FileName) :
    Path.isAbsolute (relativePath names) = false := by
  cases names with
  | nil => rfl
  | cons name rest =>
      have plain := fileName_not_absolute name
      obtain ⟨text, nonempty, _⟩ := name
      cases text with
      | nil => exact absurd rfl nonempty
      | cons c text =>
          cases rest <;> simpa [relativePath, Path.isAbsolute, List.intercalate] using plain

theorem resolve_eq_ok {path : Path} : fs.resolve path = .ok node ↔
    path ≠ [] ∧ ∃ trail parents, fs.start path = .ok trail ∧
      follow trail (Path.segments path) = .ok (node :: parents) := by
  unfold resolve
  by_cases empty : path = []
  · simp [empty]
  · simp only [ne_eq, empty, not_false_eq_true, true_and]
    cases started : fs.start path with
    | error cause => simp [bind, Except.bind]
    | ok trail =>
        cases followed : follow trail (Path.segments path) with
        | error cause => simp [bind, Except.bind, followed]
        | ok trail' =>
            cases trail' with
            | nil => simp [bind, Except.bind, followed]
            | cons node' parents => simp [bind, Except.bind, followed, eq_comm]

theorem start_join {path : Path} (nonempty : base ≠ []) (relative : Path.isAbsolute path = false) :
    fs.start (Path.join base path) = fs.start base := by
  have same : Path.isAbsolute (withSeparator base ++ path) = Path.isAbsolute base := by
    cases base with
    | nil => exact absurd rfl nonempty
    | cons c text => by_cases ends : (c :: text).getLast? = some '/' <;> simp [withSeparator, ends, Path.isAbsolute]
  simp only [start, join_relative nonempty relative, same]

/-- Where a path below a directory leads. -/
theorem resolve_below (resolved : fs.resolve base = .ok node) (names : List FileName) (found : Node) :
    fs.resolve (Path.join base (relativePath names)) = .ok found ↔
      (names = [] → node.isDir = true) ∧ node.find names = some found := by
  obtain ⟨nonempty, trail, parents, started, followed⟩ := resolve_eq_ok.mp resolved
  have relative := relativePath_not_absolute names
  obtain ⟨stem, separated, segments⟩ := exists_withSeparator base
  have reached : follow trail (Path.segments stem) = .ok (node :: parents) := by
    rcases segments with same | same
    · rwa [same] at followed
    · rw [same, follow_append] at followed
      cases middle : follow trail (Path.segments stem) with
      | error cause => simp [middle, Except.bind] at followed
      | ok trail' =>
          simp only [middle, Except.bind] at followed
          cases trail' with
          | nil => simp [follow, step, bind, Except.bind] at followed
          | cons top rest =>
              rw [follow_trivial rfl] at followed
              split at followed
              · exact followed
              · contradiction
  have joined : Path.join base (relativePath names) = stem ++ '/' :: relativePath names := by
    rw [join_relative nonempty relative, separated]
    simp
  have onward : follow trail (Path.segments (Path.join base (relativePath names))) =
      follow (node :: parents) (Path.segments (relativePath names)) := by
    rw [joined, Path.segments, List.splitOn_append_cons_self]
    change follow trail (Path.segments stem ++ Path.segments (relativePath names)) = _
    rw [follow_append, reached]
    rfl
  have ends : fs.resolve (Path.join base (relativePath names)) = .ok found ↔
      ∃ parents', follow (node :: parents) (Path.segments (relativePath names)) =
        .ok (found :: parents') := by
    rw [resolve_eq_ok, start_join nonempty relative, started, ← onward]
    constructor
    · rintro ⟨-, trail', parents', same, followed⟩
      cases same
      exact ⟨parents', followed⟩
    · rintro ⟨parents', followed⟩
      exact ⟨by rw [joined]; simp, trail, parents', rfl, followed⟩
  rw [ends]
  by_cases empty : names = []
  · subst empty
    change (∃ parents', follow (node :: parents) [[]] = .ok (found :: parents')) ↔ _
    rw [follow_trivial rfl]
    cases directory : node.isDir <;> simp [Node.find]
  · rw [segments_relativePath empty]
    simp only [empty, false_implies, true_and]
    exact follow_names node parents names found

end FileSystem

namespace FilesystemBackend

variable {fs : FileSystem} {backend : FilesystemBackend} {version : VersionItem} {id : Str}
  {node : Node}

/-- The hash of a file is its path in the file system. -/
def fileHash (base : Path) (names : List FileName) : ObjectID :=
  toUtf8 (Path.join base (relativePath names))

theorem getVersionedPath_leads (named : fromUtf8 version.id = some id) {path : Path}
    {names : List FileName} (leads : Leads path names) :
    backend.getVersionedPath version path =
      .ok (Path.join (Path.join backend.basePath id) (relativePath names)) := by
  simp [getVersionedPath, named, stripPrefix_root leads]

/-- Joining a name to the path of a directory below `base`. -/
theorem join_name {base : Path} (nonempty : base ≠ []) (names : List FileName) (name : FileName) :
    Path.join (Path.join base (relativePath names)) name.text =
      Path.join base (relativePath (names ++ [name])) := by
  rw [FileSystem.join_relative nonempty (FileSystem.relativePath_not_absolute names),
    FileSystem.join_relative nonempty (FileSystem.relativePath_not_absolute _)]
  obtain ⟨stem, separated, -⟩ := FileSystem.exists_withSeparator base
  rw [separated]
  by_cases empty : names = []
  · subst empty
    simp [relativePath, List.intercalate, Path.join, fileName_not_absolute]
  · have unfinished := getLast?_relativePath names
    have started := relativePath_ne_nil empty
    have notEnded : (stem ++ ['/'] ++ relativePath names).getLast? ≠ some '/' := by
      rw [List.getLast?_append_of_ne_nil _ started]
      exact unfinished
    rw [Path.join, fileName_not_absolute, if_neg (by simp), if_neg (by simpa using notEnded),
      relativePath_concat names name empty]
    simp

/-- The filesystem backend serves the tree below the directory of a version. -/
theorem serves (named : fromUtf8 version.id = some id)
    (resolved : fs.resolve (Path.join backend.basePath id) = .ok node) :
    Serves (backend.toStorageBackend fs) version node
      (fileHash (Path.join backend.basePath id)) where
  walks := toStorageBackend_walks backend fs
  lists path names items leads := by
    have nonempty := (FileSystem.resolve_eq_ok.mp resolved).1
    have below := FileSystem.resolve_below resolved names
    simp only [toStorageBackend, StorageBackend.withDefaultWalk, listDir, getVersionedPath_leads named leads, FileSystem.readDir]
    cases found : fs.resolve (Path.join (Path.join backend.basePath id) (relativePath names)) with
    | error cause =>
        simp only [bind, Except.bind, reduceCtorEq, false_iff]
        rintro ⟨entries, child, located, -⟩
        have reached := (below _).mpr ⟨?_, located⟩
        · rw [found] at reached
          contradiction
        · rintro rfl
          simp only [Node.find, Option.some.injEq] at located
          simp [located, Node.isDir]
    | ok here =>
        obtain ⟨-, located⟩ := (below here).mp found
        cases here with
        | file content => simp [bind, Except.bind, located]
        | dir failure entries child =>
            cases failure with
            | some cause => simp [bind, Except.bind, located]
            | none =>
                have items : entries.val.map (fun filename =>
                    ({ absPath := Path.join path filename.text
                       isDir := fs.isDir (Path.join (Path.join (Path.join backend.basePath id)
                         (relativePath names)) filename.text)
                       hash := toUtf8 (Path.join (Path.join (Path.join backend.basePath id)
                         (relativePath names)) filename.text) } : DirItem)) =
                    dirItems (fileHash (Path.join backend.basePath id)) names entries child := by
                  apply List.map_congr_left
                  intro name listed
                  have deeper := (FileSystem.resolve_below resolved (names ++ [name]) (child name)).mpr
                    ⟨by simp, find_child located listed⟩
                  simp only [join_name nonempty, fileHash, leads.join, FileSystem.isDir, deeper]
                simp only [bind, Except.bind, Except.ok.injEq, items, located, Option.some.injEq,
                  Node.dir.injEq, true_and]
                constructor
                · rintro rfl
                  exact ⟨entries, child, ⟨rfl, rfl⟩, rfl⟩
                · rintro ⟨entries', child', ⟨rfl, rfl⟩, rfl⟩
                  rfl
  reads names content bytes below located := by
    have found := (FileSystem.resolve_below resolved names (.file content)).mpr
      ⟨fun empty => absurd empty below, located⟩
    simp only [toStorageBackend, StorageBackend.withDefaultWalk, getObjByHash, fileHash, fromUtf8_toUtf8, FileSystem.read, found]
    cases content with
    | error cause => simp [bind, Except.bind]
    | ok bytes' => simp [bind, Except.bind]

end FilesystemBackend

end Eafcc.Storage
