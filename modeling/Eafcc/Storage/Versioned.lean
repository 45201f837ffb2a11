import Eafcc.Storage.Filesystem

namespace Eafcc.Storage

open Eafcc.Model

/-! # What stands at a path, however it is written -/

/-! ## Segments -/

namespace Path

variable {path base rel : Path} {segment : Str}

theorem segments_separated (first second : Path) :
    segments (first ++ '/' :: second) = segments first ++ segments second := by
  rw [segments, List.splitOn_append_cons_self]
  rfl

theorem segments_single (noSeparator : '/' ∉ path) : segments path = [path] :=
  List.splitOn_eq_singleton noSeparator

theorem segment_plain (text : Path) : ∀ segment ∈ segments text, '/' ∉ segment := by
  intro segment member
  by_cases separated : '/' ∈ text
  · obtain ⟨first, rest, same, notBefore⟩ := List.eq_append_cons_of_mem separated
    rw [same, segments_separated, segments_single notBefore] at member
    rcases List.mem_cons.mp member with rfl | member
    · exact notBefore
    · exact segment_plain rest segment member
  · rw [segments_single separated, List.mem_singleton] at member
    rwa [member]
termination_by text.length
decreasing_by
  rw [same, List.length_append, List.length_cons]
  omega

theorem trimSegments_spec (given : List Str) : ∃ before after,
    given = before ++ (trimSegments given ++ after) ∧ given.dropWhile isTrivial = trimSegments given ++ after ∧
    (∀ segment ∈ before, isTrivial segment = true) ∧ ∀ segment ∈ after, isTrivial segment = true := by
  have ends := List.takeWhile_append_dropWhile (p := isTrivial) (l := (given.dropWhile isTrivial).reverse)
  have parted := congrArg List.reverse ends
  rw [List.reverse_append, List.reverse_reverse] at parted
  refine ⟨given.takeWhile isTrivial, ((given.dropWhile isTrivial).reverse.takeWhile isTrivial).reverse,
    ?_, parted.symm, fun segment member => List.mem_takeWhile_imp member, fun segment member => ?_⟩
  · rw [show trimSegments given = ((given.dropWhile isTrivial).reverse.dropWhile isTrivial).reverse from rfl,
      parted, List.takeWhile_append_dropWhile]
  · exact List.mem_takeWhile_imp (List.mem_reverse.mp member)

/-- A name behind the segments of a path keeps those from being cut that stood at its end. -/
theorem trimSegments_concat (given : List Str) (plain : isTrivial segment = false) : ∃ middle,
    (∀ other ∈ middle, isTrivial other = true) ∧
    trimSegments (given ++ [segment]) = trimSegments given ++ (middle ++ [segment]) := by
  obtain ⟨before, after, -, dropped, -, trivial⟩ := trimSegments_spec given
  have stops : [segment].dropWhile isTrivial = [segment] := by simp [plain]
  have kept : (given ++ [segment]).dropWhile isTrivial = given.dropWhile isTrivial ++ [segment] := by
    rw [List.dropWhile_append, stops]
    split
    · rename_i empty
      rw [List.isEmpty_iff.mp empty, List.nil_append]
    · rfl
  have whole : trimSegments (given ++ [segment]) = given.dropWhile isTrivial ++ [segment] := by
    rw [trimSegments, kept, List.reverse_concat, List.dropWhile_cons_of_neg (by simp [plain]),
      List.reverse_cons, List.reverse_reverse]
  exact ⟨after, trivial, by rw [whole, dropped, List.append_assoc]⟩

theorem trimSegments_ends (given : List Str) : trimSegments given = [] ∨
    ∃ init last, trimSegments given = init ++ [last] ∧ isTrivial last = false := by
  have stops := List.head?_dropWhile_not isTrivial (given.dropWhile isTrivial).reverse
  cases trimmed : (given.dropWhile isTrivial).reverse.dropWhile isTrivial with
  | nil => exact .inl (by rw [trimSegments, trimmed]; rfl)
  | cons last init =>
      rw [trimmed] at stops
      exact .inr ⟨init.reverse, last, by rw [trimSegments, trimmed, List.reverse_cons], by simpa using stops⟩

theorem filter_trimSegments (given : List Str) :
    (trimSegments given).filter (fun segment => !isTrivial segment) =
      given.filter fun segment => !isTrivial segment := by
  obtain ⟨before, after, whole, -, leading, trailing⟩ := trimSegments_spec given
  have none : ∀ cut : List Str, (∀ segment ∈ cut, isTrivial segment = true) →
      cut.filter (fun segment => !isTrivial segment) = [] := by
    intro cut trivial
    exact List.filter_eq_nil_iff.mpr fun segment member => by simp [trivial segment member]
  rw [congrArg (List.filter _) whole, List.filter_append, List.filter_append, none before leading,
    none after trailing, List.nil_append, List.append_nil]

/-- The text that is left of an absolute path. -/
def relativeText (path : Path) : Path := ['/'].intercalate (trimSegments (segments path))

theorem stripPrefix_nil (absolute : isAbsolute path = true) : stripPrefix path [] = some (relativeText path) := by
  simp [stripPrefix, absolute, stripSegments, relativeText]

theorem segments_relativeText (path : Path) :
    segments (relativeText path) = trimSegments (segments path) ∨
      trimSegments (segments path) = [] ∧ segments (relativeText path) = [[]] := by
  by_cases empty : trimSegments (segments path) = []
  · exact .inr ⟨empty, by rw [relativeText, empty]; rfl⟩
  · refine .inl (List.splitOn_intercalate _ (fun segment member => ?_) empty)
    obtain ⟨before, after, whole, -⟩ := trimSegments_spec (segments path)
    apply segment_plain path
    rw [whole]
    exact List.mem_append_right _ (List.mem_append_left _ member)

theorem relativeText_not_absolute (path : Path) : isAbsolute (relativeText path) = false := by
  unfold relativeText
  cases trimmed : trimSegments (segments path) with
  | nil => rfl
  | cons first rest =>
      obtain ⟨before, after, whole, dropped, -⟩ := trimSegments_spec (segments path)
      rw [trimmed] at whole dropped
      have stops := List.head?_dropWhile_not isTrivial (segments path)
      rw [dropped] at stops
      have noSeparator : '/' ∉ first := segment_plain path first (by rw [whole]; simp)
      cases first with
      | nil => simp [isTrivial] at stops
      | cons c text =>
          have differs : c ≠ '/' := fun same => noSeparator (by simp [same])
          cases rest <;> simpa [isAbsolute, List.intercalate] using differs

theorem trimSegments_concat_trivial (given : List Str) (trivial : isTrivial segment = true) :
    trimSegments (given ++ [segment]) = trimSegments given := by
  have drops : [segment].dropWhile isTrivial = [] := by simp [trivial]
  unfold trimSegments
  rw [List.dropWhile_append, drops]
  split
  · rename_i empty
    rw [List.isEmpty_iff.mp empty]
  · rw [List.reverse_concat, List.dropWhile_cons_of_pos trivial]

theorem join_ne_nil (base : Path) (proper : rel ≠ []) : join base rel ≠ [] := by
  unfold join
  split
  · exact proper
  · split <;> simp [proper]

/-- The segments of a name joined to a path. -/
theorem segments_join_name (nonempty : path ≠ []) (name : FileName) : ∃ before,
    segments (join path name.text) = before ++ [name.text] ∧ trimSegments before = trimSegments (segments path) := by
  obtain ⟨stem, separated, written⟩ := FileSystem.exists_withSeparator path
  refine ⟨segments stem, ?_, ?_⟩
  · rw [FileSystem.join_relative nonempty (fileName_not_absolute name), separated, List.append_assoc,
      List.singleton_append, segments_separated, segments_single name.plain.2.1]
  · rcases written with same | same
    · rw [same]
    · rw [same, trimSegments_concat_trivial _ rfl]

/-- What a base contributes to the segments of the paths below it. -/
theorem exists_joined (base : Path) : ∃ before, ∀ rel, isAbsolute rel = false →
    segments (join base rel) = before ++ segments rel := by
  by_cases empty : base = []
  · exact ⟨[], fun rel relative => by simp [empty, join, relative]⟩
  · obtain ⟨stem, separated, -⟩ := FileSystem.exists_withSeparator base
    refine ⟨segments stem, fun rel relative => ?_⟩
    rw [FileSystem.join_relative empty relative, separated, List.append_assoc, List.singleton_append,
      segments_separated]

end Path

/-! ## Following segments -/

namespace FileSystem

variable {fs : FileSystem} {node : Node} {parents trail : List Node} {path base rel : Path}

theorem start_joined (base : Path) (relative : Path.isAbsolute rel = false) :
    fs.start (Path.join base rel) = fs.start base := by
  by_cases empty : base = []
  · subst empty
    have joined : Path.join [] rel = rel := by simp [Path.join, relative]
    rw [start, start, joined, relative]
    rfl
  · exact start_join empty relative

theorem follow_trivials {failure : Option IOError} {entries : Listing} {child : FileName → Node}
    {given : List Str} (trivial : ∀ segment ∈ given, Path.isTrivial segment = true) :
    follow (.dir failure entries child :: parents) given = .ok (.dir failure entries child :: parents) := by
  induction given with
  | nil => rfl
  | cons segment given ih =>
      have here := follow_trivial (trivial segment (by simp)) (.dir failure entries child) parents
      rw [← List.singleton_append (x := segment), follow_append, here]
      exact ih fun other member => trivial other (by simp [member])

/-- The trivial segments before a name make no difference. -/
theorem follow_filter (given : List Str) {last : Str} (plain : Path.isTrivial last = false) (trail : List Node) :
    follow trail (given ++ [last]) =
      follow trail ((given ++ [last]).filter fun segment => !Path.isTrivial segment) := by
  induction given generalizing trail with
  | nil => simp [plain]
  | cons segment given ih =>
      cases trivial : Path.isTrivial segment with
      | true =>
          rw [List.cons_append, List.filter_cons_of_neg (by simp [trivial]), ← ih trail]
          match trail with
          | .dir failure entries child :: parents => simp [follow, step, trivial, bind, Except.bind]
          | .file content :: parents => cases given <;> simp [follow, step, bind, Except.bind]
          | [] => cases given <;> simp [follow, step, bind, Except.bind]
      | false =>
          rw [List.cons_append, List.filter_cons_of_pos (by simp [trivial])]
          simp only [follow, List.foldlM_cons, bind, Except.bind]
          cases step trail segment with
          | error cause => rfl
          | ok next => exact ih next

/-- A separator at the end leads no further. -/
theorem follow_separator {given : List Str} (followed : follow trail (given ++ [[]]) = .ok (node :: parents)) :
    follow trail given = .ok (node :: parents) := by
  rw [follow_append] at followed
  cases middle : follow trail given with
  | error cause => simp [middle, Except.bind] at followed
  | ok trail' =>
      simp only [middle, Except.bind] at followed
      cases trail' with
      | nil => simp [follow, step, bind, Except.bind] at followed
      | cons top rest =>
          rw [follow_trivial rfl] at followed
          split at followed
          · exact followed
          · cases followed

end FileSystem

/-! ## Directories and files of a version -/

namespace FilesystemBackend

variable {fs : FileSystem} {backend : FilesystemBackend} {version : VersionItem} {path : Path}
  {node : Node} {failure : Option IOError} {entries : Listing} {child : FileName → Node}

/-- What a walk that asks for a path comes to. -/
def nodeAt (backend : FilesystemBackend) (fs : FileSystem) (version : VersionItem) (path : Path) :
    Except StorageBackendError Node :=
  match backend.getVersionedPath version path with
  | .error reason => .error reason
  | .ok realFsAbsPath => (fs.resolve realFsAbsPath).mapError .ioError

theorem getVersionedPath_absolute {id : Str} (named : fromUtf8 version.id = some id)
    (absolute : Path.isAbsolute path = true) : backend.getVersionedPath version path =
      .ok (Path.join (Path.join backend.basePath id) (Path.relativeText path)) := by
  simp [getVersionedPath, named, Path.stripPrefix_nil absolute]

theorem nodeAt_named (found : backend.nodeAt fs version path = .ok node) :
    ∃ id, fromUtf8 version.id = some id := by
  cases named : fromUtf8 version.id with
  | some id => exact ⟨id, rfl⟩
  | none => simp [nodeAt, getVersionedPath, named] at found

theorem nodeAt_eq_ok {id : Str} (named : fromUtf8 version.id = some id)
    (absolute : Path.isAbsolute path = true) :
    backend.nodeAt fs version path = .ok node ↔
      fs.resolve (Path.join (Path.join backend.basePath id) (Path.relativeText path)) = .ok node := by
  rw [nodeAt, getVersionedPath_absolute named absolute]
  cases resolved : fs.resolve (Path.join (Path.join backend.basePath id) (Path.relativeText path)) <;>
    simp [Except.mapError, resolved]

theorem isAbsolute_join (absolute : Path.isAbsolute path = true) (name : FileName) :
    Path.isAbsolute (Path.join path name.text) = true := by
  cases path with
  | nil => cases absolute
  | cons c text =>
      have started : c = '/' := by simpa [Path.isAbsolute] using absolute
      subst started
      rw [FileSystem.join_relative (by simp) (fileName_not_absolute name), FileSystem.withSeparator]
      split <;> rfl

/-- The entries of a directory are found below its path. -/
theorem nodeAt_join (absolute : Path.isAbsolute path = true)
    (found : backend.nodeAt fs version path = .ok (.dir failure entries child)) {name : FileName}
    (listed : name ∈ entries.val) :
    backend.nodeAt fs version (Path.join path name.text) = .ok (child name) := by
  obtain ⟨id, named⟩ := nodeAt_named found
  have nonempty : path ≠ [] := by
    rintro rfl
    cases absolute
  rw [nodeAt_eq_ok named absolute] at found
  rw [nodeAt_eq_ok named (isAbsolute_join absolute name)]
  obtain ⟨before, joined⟩ := Path.exists_joined (Path.join backend.basePath id)
  have relative := Path.relativeText_not_absolute path
  have relative' := Path.relativeText_not_absolute (Path.join path name.text)
  obtain ⟨-, trail, parents, started, followed⟩ := FileSystem.resolve_eq_ok.mp found
  rw [FileSystem.start_joined _ relative] at started
  rw [joined _ relative] at followed
  have reached : FileSystem.follow trail (before ++ Path.trimSegments (Path.segments path)) =
      .ok (.dir failure entries child :: parents) := by
    rcases Path.segments_relativeText path with same | ⟨empty, same⟩
    · rwa [same] at followed
    · rw [same] at followed
      rw [empty, List.append_nil]
      exact FileSystem.follow_separator followed
  -- What was cut at the end of the path stands before the name, and leads nowhere.
  obtain ⟨stem, written, trimmed⟩ := Path.segments_join_name nonempty name
  obtain ⟨middle, trivial, longer⟩ := Path.trimSegments_concat stem (isTrivial_fileName name)
  rw [← written, trimmed] at longer
  have segments : Path.segments (Path.relativeText (Path.join path name.text)) =
      Path.trimSegments (Path.segments path) ++ (middle ++ [name.text]) := by
    rcases Path.segments_relativeText (Path.join path name.text) with same | ⟨empty, -⟩
    · rw [same, longer]
    · rw [longer] at empty
      simp at empty
  have onward : FileSystem.follow trail
      (Path.segments (Path.join (Path.join backend.basePath id) (Path.relativeText (Path.join path name.text)))) =
        .ok (child name :: .dir failure entries child :: parents) := by
    rw [joined _ relative', segments, ← List.append_assoc, FileSystem.follow_append, reached]
    simp only [Except.bind]
    rw [FileSystem.follow_append, FileSystem.follow_trivials trivial]
    simp only [Except.bind, FileSystem.follow, List.foldlM_cons, FileSystem.step_name, if_pos listed]
    rfl
  refine FileSystem.resolve_eq_ok.mpr ⟨?_, trail, _, ?_, onward⟩
  · intro empty
    have last := congrArg List.getLast? (joined _ relative')
    rw [empty, segments, ← List.append_assoc, ← List.append_assoc, List.getLast?_concat] at last
    exact name.plain.1 (Option.some.inj last).symm
  · rw [FileSystem.start_joined _ relative', started]

/-- A path below a directory of the version leads to the node that its names name. -/
theorem nodeAt_names {id : Str} (named : fromUtf8 version.id = some id) {tree : Node}
    (resolved : fs.resolve (Path.join backend.basePath id) = .ok tree) (absolute : Path.isAbsolute path = true)
    {names : List FileName} (nonempty : names ≠ [])
    (written : (Path.segments path).filter (fun segment => !Path.isTrivial segment) = names.map FileName.text) :
    backend.nodeAt fs version path = .ok node ↔ tree.find names = some node := by
  have below := FileSystem.resolve_below resolved names node
  simp only [nonempty, false_implies, true_and] at below
  rw [← below, nodeAt_eq_ok named absolute, FileSystem.resolve_eq_ok, FileSystem.resolve_eq_ok]
  obtain ⟨before, joined⟩ := Path.exists_joined (Path.join backend.basePath id)
  have relative := Path.relativeText_not_absolute path
  have relative' := FileSystem.relativePath_not_absolute names
  have filtered := Path.filter_trimSegments (Path.segments path)
  rw [written] at filtered
  obtain ⟨init, last, trimmed, plain⟩ : ∃ init last, Path.trimSegments (Path.segments path) = init ++ [last] ∧
      Path.isTrivial last = false := by
    rcases Path.trimSegments_ends (Path.segments path) with empty | ends
    · rw [empty] at filtered
      exact absurd (List.map_eq_nil_iff.mp filtered.symm) nonempty
    · exact ends
  have segments : Path.segments (Path.relativeText path) = init ++ [last] := by
    rcases Path.segments_relativeText path with same | ⟨empty, -⟩
    · rw [same, trimmed]
    · rw [trimmed] at empty
      simp at empty
  rw [trimmed] at filtered
  have follows : ∀ trail, FileSystem.follow trail
      (Path.segments (Path.join (Path.join backend.basePath id) (Path.relativeText path))) =
        FileSystem.follow trail
          (Path.segments (Path.join (Path.join backend.basePath id) (relativePath names))) := by
    intro trail
    rw [joined _ relative, joined _ relative', segments, segments_relativePath nonempty, FileSystem.follow_append,
      FileSystem.follow_append]
    congr 1
    funext middle
    rw [FileSystem.follow_filter init plain, filtered]
  have proper : Path.relativeText path ≠ [] := by
    intro empty
    rw [empty] at segments
    have ends := congrArg List.getLast? segments
    rw [List.getLast?_concat] at ends
    rw [← Option.some.inj ends] at plain
    cases plain
  rw [FileSystem.start_joined _ relative, FileSystem.start_joined _ relative']
  simp only [follows, ne_eq, Path.join_ne_nil _ proper, Path.join_ne_nil _ (relativePath_ne_nil nonempty)]

/-! ### Listings -/

/-- Reading a file, with the error as the backend passes it on. -/
def readContent (content : Except IOError Bytes) : Except StorageBackendError Bytes :=
  content.mapError .ioError

/-- The entries of a directory as they are listed at a path. -/
def itemsAt (path : Path) (hash : FileName → ObjectID) (entries : Listing) (child : FileName → Node) :
    List DirItem :=
  entries.val.map fun name =>
    { absPath := Path.join path name.text, isDir := (child name).isDir, hash := hash name }

theorem exists_resolved (found : backend.nodeAt fs version path = .ok node) :
    ∃ real, backend.getVersionedPath version path = .ok real ∧ fs.resolve real = .ok node := by
  unfold nodeAt at found
  cases versioned : backend.getVersionedPath version path with
  | error reason => simp [versioned] at found
  | ok real =>
      cases resolved : fs.resolve real with
      | error cause => simp [versioned, resolved, Except.mapError] at found
      | ok node' =>
          simp only [versioned, resolved, Except.mapError, Except.ok.injEq] at found
          exact ⟨real, rfl, by rw [resolved, found]⟩

theorem listDir_error {reason : StorageBackendError} (missing : backend.nodeAt fs version path = .error reason) :
    backend.listDir fs version path = .error reason := by
  unfold nodeAt at missing
  unfold listDir
  cases versioned : backend.getVersionedPath version path with
  | error reason' => simpa [versioned] using missing
  | ok real =>
      cases resolved : fs.resolve real with
      | ok node => simp [versioned, resolved, Except.mapError] at missing
      | error cause => simpa [versioned, resolved, Except.mapError, FileSystem.readDir, bind, Except.bind] using missing

theorem listDir_file {content : Except IOError Bytes} (found : backend.nodeAt fs version path = .ok (.file content)) :
    backend.listDir fs version path = .error (.ioError FileSystem.notADirectory) := by
  obtain ⟨real, versioned, resolved⟩ := exists_resolved found
  simp [listDir, versioned, FileSystem.readDir, resolved, bind, Except.bind]

theorem listDir_failure {cause : IOError}
    (found : backend.nodeAt fs version path = .ok (.dir (some cause) entries child)) :
    backend.listDir fs version path = .error (.ioError cause) := by
  obtain ⟨real, versioned, resolved⟩ := exists_resolved found
  simp [listDir, versioned, FileSystem.readDir, resolved, bind, Except.bind]

/-- The listing of a directory, each file with a hash by which it is read. -/
theorem listDir_dir (found : backend.nodeAt fs version path = .ok (.dir none entries child)) :
    ∃ hash : FileName → ObjectID,
      backend.listDir fs version path = .ok (itemsAt path hash entries child) ∧
      ∀ name ∈ entries.val, ∀ content, child name = .file content →
        getObjByHash fs (hash name) = readContent content := by
  obtain ⟨real, versioned, resolved⟩ := exists_resolved found
  have below : ∀ name ∈ entries.val, fs.resolve (Path.join real name.text) = .ok (child name) := by
    intro name listed
    have deeper := (FileSystem.resolve_below resolved [name] (child name)).mpr
      ⟨by simp, by simp [Node.find, listed]⟩
    rwa [show relativePath [name] = name.text by simp [relativePath]] at deeper
  refine ⟨fun name => toUtf8 (Path.join real name.text), ?_, fun name listed content file => ?_⟩
  · simp only [listDir, versioned, FileSystem.readDir, resolved, bind, Except.bind, itemsAt]
    congr 1
    apply List.map_congr_left
    intro name listed
    simp only [FileSystem.isDir, below name listed]
  · simp only [getObjByHash, fromUtf8_toUtf8, FileSystem.read, below name listed, file, bind, Except.bind]
    cases content <;> rfl

/-! ### Every walk ends -/

section Termination

variable {σ : Type} {cb : σ → DirItem → σ × Rust WalkDirError WalkRetCtl}

/-- How many directories a walk may still list from a path. -/
def dirsBelow (backend : FilesystemBackend) (fs : FileSystem) (version : VersionItem) (path : Path) : Nat :=
  match backend.nodeAt fs version path with
  | .ok node => node.dirCount
  | .error _ => 0

theorem walkLoop_ends {stack : List Path} (absolute : ∀ path ∈ stack, Path.isAbsolute path = true) (s : σ) :
    ∀ fuel, (stack.map (backend.dirsBelow fs version)).sum < fuel →
      ∃ result, walkLoop cb (backend.listDir fs version) fuel stack s = some result := by
  let weighs (path : Path) (weight : Nat) : Prop :=
    Path.isAbsolute path = true ∧ weight = backend.dirsBelow fs version path
  have falls : ∀ path weight nodes, weighs path weight → backend.listDir fs version path = .ok nodes →
      ∃ weights : List Nat,
        List.Forall₂ (fun node weight => node.isDir = true → weighs node.absPath weight) nodes weights ∧
        weights.sum < weight := by
    intro path weight nodes here listed
    obtain ⟨absolute, rfl⟩ := here
    match found : backend.nodeAt fs version path with
    | .error reason => simp [listDir_error found] at listed
    | .ok (.file content) => simp [listDir_file found] at listed
    | .ok (.dir (some cause) entries child) => simp [listDir_failure found] at listed
    | .ok (.dir none entries child) =>
        obtain ⟨hash, items, -⟩ := listDir_dir found
        obtain rfl := Except.ok.inj (items.symm.trans listed)
        refine ⟨entries.val.map fun name => backend.dirsBelow fs version (Path.join path name.text), ?_, ?_⟩
        · rw [itemsAt, List.forall₂_map_left_iff, List.forall₂_map_right_iff]
          exact List.forall₂_same.mpr fun name _ _ => ⟨isAbsolute_join absolute name, rfl⟩
        · have below : (entries.val.map fun name => backend.dirsBelow fs version (Path.join path name.text)) =
              entries.val.map fun name => (child name).dirCount := by
            apply List.map_congr_left
            intro name member
            rw [dirsBelow, nodeAt_join absolute found member]
          rw [below, dirsBelow, found]
          simp only [Node.dirCount]
          omega
  have stacked : List.Forall₂ weighs stack (stack.map (backend.dirsBelow fs version)) := by
    rw [List.forall₂_map_right_iff]
    exact List.forall₂_same.mpr fun path member => ⟨absolute path member, rfl⟩
  exact walkLoop_weighed falls stacked s

end Termination

end FilesystemBackend

end Eafcc.Storage
