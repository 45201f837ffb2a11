import Eafcc.CfgCenter.Center
import Eafcc.CfgCenter.Loading
import Eafcc.Storage.Recording
import Eafcc.Storage.Versioned

namespace Eafcc.CfgCenter

open Eafcc.RuleEngine Eafcc.Model Eafcc.Storage

/-! # The directories that the loaders keep to -/

variable {Pri : Type} {ns : Str} {path rel : Path} {directory : FileName}

/-- A walk with a callback from a path. -/
abbrev Walker (σ : Type) :=
  (σ → DirItem → σ × Rust WalkDirError WalkRetCtl) → Path → σ → Option (σ × Rust StorageBackendError Unit)

/-- The nodes that the walk of a loader offers to its callback. -/
def offeredNodes {Obj : Type} (walk : Walker (CFGIndex Pri × List (Path × Bool))) (backend : StorageBackend)
    (directory : Str) (loadFromSlice : Bytes → Except DataLoaderError Obj)
    (add : CFGIndex Pri → Str → Obj → Option (CFGIndex Pri)) (namespaceName : Str) (index : CFGIndex Pri) :
    Option (List (Path × Bool)) :=
  match namespaceName with
  | '/' :: relative =>
      (walk (recording (indexFile backend directory loadFromSlice add)) (Path.join ('/' :: directory) relative)
        (index, [])).map fun walked => walked.1.2
  | _ => none

/-- Stripping the directory off the path of an offered node succeeds. -/
def Strips (directory : Str) (offered : CFGIndex Pri → Option (List (Path × Bool))) : Prop :=
  ∀ index nodes, offered index = some nodes → ∀ node ∈ nodes, (Path.stripPrefix node.1 [directory]).isSome = true

structure KeepsBelow (crates : Crates Pri) (walk : Walker (CFGIndex Pri × List (Path × Bool)))
    (backend : StorageBackend) (ns : Str) : Prop where
  rules : Strips "rules".toList
    (offeredNodes walk backend "rules".toList (Rule.loadFromSlice crates) CFGIndex.addRule ns)
  links : Strips "links".toList
    (offeredNodes walk backend "links".toList (Link.loadFromSlice crates) CFGIndex.addLink ns)
  reses : Strips "reses".toList
    (offeredNodes walk backend "reses".toList (Res.loadFromSlice crates) CFGIndex.addRes ns)

/-! ## Paths below a directory -/

/-- The path is written with the directory in front. -/
def Starts (directory : FileName) (path : Path) : Prop := '/' :: (directory.text ++ ['/']) <+: path

theorem stripPrefix_of_starts (starts : Starts directory path) :
    (Path.stripPrefix path [directory.text]).isSome = true := by
  obtain ⟨rest, rfl⟩ := starts
  have written : '/' :: (directory.text ++ ['/']) ++ rest = [] ++ '/' :: (directory.text ++ '/' :: rest) := by simp
  have absolute : Path.isAbsolute ([] ++ '/' :: (directory.text ++ '/' :: rest)) = true := rfl
  have segments : Path.segments ([] ++ '/' :: (directory.text ++ '/' :: rest)) =
      [] :: directory.text :: Path.segments rest := by
    rw [Path.segments_separated, Path.segments_separated, Path.segments_single directory.plain.2.1]
    rfl
  rw [written, Path.stripPrefix, if_pos absolute, segments]
  simp [Path.stripSegments, isTrivial_fileName, show Path.isTrivial [] = true from rfl]

theorem stripPrefix_unique {other : FileName} (first : (Path.stripPrefix path [directory.text]).isSome = true)
    (second : (Path.stripPrefix path [other.text]).isSome = true) : directory = other := by
  have leads : ∀ name : FileName, (Path.stripPrefix path [name.text]).isSome = true →
      ((Path.segments path).dropWhile Path.isTrivial).head? = some name.text := by
    intro name strips
    unfold Path.stripPrefix at strips
    split at strips
    · rw [Option.isSome_map, Path.stripSegments] at strips
      split at strips
      · rename_i segment rest split
        rw [split]
        split at strips
        · rename_i same
          rw [same]
          rfl
        · cases strips
      · cases strips
    · cases strips
  have same := (leads directory first).symm.trans (leads other second)
  exact FileName.text_injective (Option.some.inj same)

theorem starts_join (starts : Starts directory path) (relative : Path.isAbsolute rel = false) :
    Starts directory (Path.join path rel) := by
  have nonempty : path ≠ [] := by
    rintro rfl
    cases List.prefix_nil.mp starts
  rw [FileSystem.join_relative nonempty relative]
  unfold FileSystem.withSeparator
  split
  · exact starts.trans (List.prefix_append _ _)
  · exact starts.trans ((List.prefix_append _ _).trans (List.prefix_append _ _))

theorem join_directory (directory : FileName) (relative : Path.isAbsolute rel = false) :
    Path.join ('/' :: directory.text) rel = '/' :: (directory.text ++ ['/']) ++ rel := by
  have unfinished : ('/' :: directory.text).getLast? ≠ some '/' := by
    have ends := getLast?_filePath [directory]
    rwa [filePath_singleton] at ends
  rw [FileSystem.join_relative (by simp) relative, FileSystem.withSeparator, if_neg unfinished]
  simp

/-! ## Where the walks start -/

/-- The text of an accepted namespace without its first separator. -/
theorem exists_relative (accepted : CFGCenterInner.validNamespace ns = true) : ∃ relative, ns = '/' :: relative := by
  simp only [CFGCenterInner.validNamespace, Bool.and_eq_true, decide_eq_true_eq] at accepted
  cases ns with
  | nil => cases accepted.1
  | cons c relative => exact ⟨relative, by rw [Option.some.inj accepted.1]⟩

theorem relative_of_single (single : ¬ ['/', '/'] <+: '/' :: rel) : Path.isAbsolute rel = false := by
  cases rel with
  | nil => rfl
  | cons c text =>
      have differs : c ≠ '/' := by
        rintro rfl
        exact single ⟨text, rfl⟩
      simp [Path.isAbsolute, differs]

theorem starts_walk (single : ¬ ['/', '/'] <+: '/' :: rel) :
    Starts directory (Path.join ('/' :: directory.text) rel) := by
  rw [join_directory directory (relative_of_single single)]
  exact List.prefix_append _ _

theorem walk_replaced (double : ['/', '/'] <+: '/' :: rel) : Path.isAbsolute rel = true := by
  obtain ⟨rest, same⟩ := double
  rw [← (List.cons.inj same).2]
  rfl

theorem join_replaced (base : Path) (absolute : Path.isAbsolute rel = true) : Path.join base rel = rel := by
  rw [Path.join, if_pos absolute]

/-! ## The two walks -/

section Loader

variable {Obj : Type} (directory : FileName) (decode : Bytes → Except DataLoaderError Obj)
  (add : CFGIndex Pri → Str → Obj → Option (CFGIndex Pri))

def defaultWalk (backend : StorageBackend) (fuel : Nat) (version : VersionItem) :
    Walker (CFGIndex Pri × List (Path × Bool)) :=
  fun cb path state => backend.walkDir cb fuel version path state

def gitWalk (git : GitBackend) (version : VersionItem) : Walker (CFGIndex Pri × List (Path × Bool)) :=
  fun cb path state => some (git.walkDir cb version path state)

theorem offered_default {walk : Walker (CFGIndex Pri × List (Path × Bool))} {backend : StorageBackend}
    {index : CFGIndex Pri} {nodes : List (Path × Bool)}
    (offered : offeredNodes walk backend directory.text decode add ('/' :: rel) index = some nodes) :
    ∃ final result, walk (recording (indexFile backend directory.text decode add))
      (Path.join ('/' :: directory.text) rel) (index, []) = some ((final, nodes), result) := by
  obtain ⟨⟨⟨final, nodes'⟩, result⟩, walked, rfl⟩ := Option.map_eq_some_iff.mp offered
  exact ⟨final, result, walked⟩

theorem strips_default {files : FilesystemBackend} {fs : FileSystem} {version : VersionItem} {fuel : Nat}
    (single : ¬ ['/', '/'] <+: '/' :: rel) :
    Strips directory.text
      (offeredNodes (defaultWalk (files.toStorageBackend fs) fuel version) (files.toStorageBackend fs) directory.text
        decode add ('/' :: rel)) := by
  intro index nodes offered
  obtain ⟨final, result, walked⟩ := offered_default directory decode add offered
  have listed : ∀ path, Starts directory path → ∀ items, files.listDir fs version path = .ok items →
      ∀ item ∈ items, Starts directory item.absPath := by
    intro path starts items listed item member
    unfold FilesystemBackend.listDir at listed
    split at listed
    · cases listed
    · split at listed
      · cases listed
      · cases listed
        obtain ⟨name, -, rfl⟩ := List.mem_map.mp member
        exact starts_join starts (fileName_not_absolute name)
  obtain ⟨met, same, inside⟩ := walkLoop_recording (Starts directory) listed (by simpa using starts_walk single) walked
  intro node member
  rw [same, List.nil_append] at member
  exact stripPrefix_of_starts (inside node member)

/-- What the git walk of a loader offers is what a walk over the tree of the commit does. -/
theorem offered_git {git : GitBackend} (preOrder : git.treeWalk.PreOrder) {version : VersionItem}
    {backend : StorageBackend} {index : CFGIndex Pri} {nodes : List (Path × Bool)}
    (offered : offeredNodes (gitWalk git version) backend directory.text decode add ('/' :: rel) index = some nodes) :
    nodes = [] ∨ ∃ oid tree names node, GitBackend.oidFromBytes version.id = .ok oid ∧ git.findTree oid = .ok tree ∧
      GitBackend.walkStartPoint tree (Path.join ('/' :: directory.text) rel) = .ok (some (names, node)) ∧
      nodes = (node.walk (fun below => tree.id (names ++ below)) (GitBackend.visitEntry
        (recording (indexFile backend directory.text decode add)) (Path.join ('/' :: directory.text) rel))
        [] (index, [])).1.2 := by
  obtain ⟨final, result, walked⟩ := offered_default directory decode add offered
  simp only [gitWalk, Option.some.injEq, GitBackend.walkDir] at walked
  split at walked
  · cases walked
    exact .inl rfl
  · rename_i oid commit
    split at walked
    · cases walked
      exact .inl rfl
    · rename_i tree stored
      split at walked
      · cases walked
        exact .inl rfl
      · cases walked
        exact .inl rfl
      · rename_i names node starts
        refine .inr ⟨oid, tree, names, node, commit, stored, starts, ?_⟩
        rw [← (preOrder _ _ _ _ _).1, (Prod.mk.inj walked).1]

theorem strips_git {git : GitBackend} (preOrder : git.treeWalk.PreOrder) {version : VersionItem}
    {backend : StorageBackend} (single : ¬ ['/', '/'] <+: '/' :: rel) :
    Strips directory.text
      (offeredNodes (gitWalk git version) backend directory.text decode add ('/' :: rel)) := by
  intro index nodes offered
  rcases offered_git directory decode add preOrder offered with rfl | ⟨oid, tree, names, start, -, -, -, walked⟩
  · simp
  · obtain ⟨met, same, inside, -⟩ := Node.walk_recording (Starts directory)
      (fun path starts rel relative => starts_join starts relative) (starts_walk single) index []
    rw [same, List.nil_append] at walked
    subst walked
    exact fun node member => stripPrefix_of_starts (inside node member)

/-- The first node of the directory that replaces the loader's own is offered. -/
theorem offers_default {files : FilesystemBackend} {fs : FileSystem} {version : VersionItem}
    (absolute : Path.isAbsolute rel = true) {item : DirItem} {items : List DirItem}
    (listed : files.listDir fs version rel = .ok (item :: items)) :
    ∃ enough nodes, (item.absPath, item.isDir) ∈ nodes ∧ ∀ fuel, enough ≤ fuel →
      offeredNodes (defaultWalk (files.toStorageBackend fs) fuel version) (files.toStorageBackend fs) directory.text
        decode add ('/' :: rel) .empty = some nodes := by
  have ends : ∃ walked, walkLoop (recording (indexFile (files.toStorageBackend fs) directory.text decode add))
      ((files.toStorageBackend fs).listDir version) (([rel].map (files.dirsBelow fs version)).sum + 1) [rel] (.empty, []) = some walked :=
    FilesystemBackend.walkLoop_ends (by simpa using absolute) _ _ (Nat.lt_succ_self _)
  obtain ⟨⟨⟨final, nodes⟩, result⟩, walked⟩ := ends
  refine ⟨([rel].map (files.dirsBelow fs version)).sum + 1, nodes, walkLoop_recording_first listed walked,
    fun fuel enough => ?_⟩
  have longer := (files.walkDir_eq fs _ _ _ _ _).trans (walkLoop_le enough walked)
  simp only [offeredNodes, defaultWalk, join_replaced _ absolute, longer, Option.map_some]

theorem offers_git {git : GitBackend} (preOrder : git.treeWalk.PreOrder) {version : VersionItem}
    {backend : StorageBackend} (absolute : Path.isAbsolute rel = true) {oid : ObjectID} {tree : CommitTree} {names : List FileName}
    {entries : Listing} {child : FileName → Node} (commit : GitBackend.oidFromBytes version.id = .ok oid)
    (stored : git.findTree oid = .ok tree)
    (starts : GitBackend.walkStartPoint tree rel = .ok (some (names, .dir none entries child)))
    {name : FileName} {rest : List FileName} (listed : entries.val = name :: rest) :
    ∃ nodes, entryShown rel [] child name ∈ nodes ∧
      offeredNodes (gitWalk git version) backend directory.text decode add ('/' :: rel) .empty = some nodes := by
  refine ⟨((Node.dir none entries child).walk (fun below => tree.id (names ++ below)) (GitBackend.visitEntry
    (recording (indexFile backend directory.text decode add)) rel) [] (.empty, [])).1.2,
    Node.walk_recording_first listed CFGIndex.empty, ?_⟩
  simp only [offeredNodes, gitWalk, join_replaced _ absolute, GitBackend.walkDir, commit, stored, starts,
    Option.map_some, (preOrder _ _ _ _ _).1]

theorem strips_default_empty {files : FilesystemBackend} {fs : FileSystem} {version : VersionItem} {fuel : Nat}
    (absolute : Path.isAbsolute rel = true) (empty : ∀ items, files.listDir fs version rel = .ok items → items = []) :
    Strips directory.text
      (offeredNodes (defaultWalk (files.toStorageBackend fs) fuel version) (files.toStorageBackend fs) directory.text
        decode add ('/' :: rel)) := by
  intro index nodes offered
  obtain ⟨final, result, walked⟩ := offered_default directory decode add offered
  simp only [defaultWalk, join_replaced _ absolute, files.walkDir_eq] at walked
  have nothing : nodes = [] := by
    cases fuel with
    | zero => cases walked
    | succ fuel =>
        unfold walkLoop at walked
        cases listed : files.listDir fs version rel with
        | error reason =>
            simp only [listed] at walked
            cases walked
            rfl
        | ok items =>
            obtain rfl := empty items listed
            simp only [listed, visitNodes] at walked
            cases fuel with
            | zero => cases walked
            | succ fuel =>
                cases walked
                rfl
  simp [nothing]

theorem strips_git_empty {git : GitBackend} (preOrder : git.treeWalk.PreOrder) {version : VersionItem}
    {backend : StorageBackend} (absolute : Path.isAbsolute rel = true)
    (empty : ∀ oid tree names entries child, GitBackend.oidFromBytes version.id = .ok oid →
      git.findTree oid = .ok tree →
      GitBackend.walkStartPoint tree rel = .ok (some (names, .dir none entries child)) → entries.val = []) :
    Strips directory.text
      (offeredNodes (gitWalk git version) backend directory.text decode add ('/' :: rel)) := by
  intro index nodes offered
  have nothing : nodes = [] := by
    rcases offered_git directory decode add preOrder offered with
      none | ⟨oid, tree, names, node, commit, stored, starts, walked⟩
    · exact none
    · rw [join_replaced _ absolute] at starts
      cases node with
      | file content => exact walked
      | dir failure entries child =>
          cases failure with
          | some cause => exact walked
          | none =>
              have listed := empty oid tree names entries child commit stored starts
              simpa only [Node.walk, listed, walkEntries] using walked
  simp [nothing]

end Loader

/-! ## Both backends -/

/-- The three loaders of one walk strip different directories. -/
theorem not_keepsBelow {crates : Crates Pri} {walk : Walker (CFGIndex Pri × List (Path × Bool))}
    {backend : StorageBackend} {shown : Path × Bool}
    (rules : ∃ nodes, shown ∈ nodes ∧ offeredNodes walk backend "rules".toList (Rule.loadFromSlice crates)
      CFGIndex.addRule ns .empty = some nodes)
    (links : ∃ nodes, shown ∈ nodes ∧ offeredNodes walk backend "links".toList (Link.loadFromSlice crates)
      CFGIndex.addLink ns .empty = some nodes) : ¬ KeepsBelow crates walk backend ns := by
  intro keeps
  obtain ⟨ruleNodes, ruleMember, ruleOffered⟩ := rules
  obtain ⟨linkNodes, linkMember, linkOffered⟩ := links
  have first := keeps.rules _ _ ruleOffered shown ruleMember
  have second := keeps.links _ _ linkOffered shown linkMember
  have same : rulesName = linksName := @stripPrefix_unique _ rulesName linksName first second
  exact absurd (congrArg FileName.text same) (by decide)

theorem keepsBelow_of_strips {crates : Crates Pri} {walk : Walker (CFGIndex Pri × List (Path × Bool))}
    {backend : StorageBackend}
    (strips : ∀ (Obj : Type) (directory : FileName) (decode : Bytes → Except DataLoaderError Obj)
      (add : CFGIndex Pri → Str → Obj → Option (CFGIndex Pri)),
      Strips directory.text (offeredNodes walk backend directory.text decode add ns)) :
    KeepsBelow crates walk backend ns where
  rules := strips _ rulesName _ _
  links := strips _ linksName _ _
  reses := strips _ resesName _ _

/-- The loaders of an accepted namespace keep to their directories exactly if it does not
begin with two separators, or nothing is listed at the path that is left of it. -/
theorem namespace_keepsBelow_iff (crates : Crates Pri) (ns : Str)
    (accepted : CFGCenterInner.validNamespace ns = true) (version : VersionItem) :
    (∀ (files : FilesystemBackend) (fs : FileSystem),
      (∀ fuel, KeepsBelow crates (defaultWalk (files.toStorageBackend fs) fuel version)
        (files.toStorageBackend fs) ns) ↔
        ¬ ['/', '/'] <+: ns ∨ ∀ items, files.listDir fs version ns.tail = .ok items → items = []) ∧
    ∀ git : GitBackend, git.treeWalk.PreOrder → (KeepsBelow crates (gitWalk git version) git.toStorageBackend ns ↔
      ¬ ['/', '/'] <+: ns ∨ ∀ oid tree names entries child, GitBackend.oidFromBytes version.id = .ok oid →
        git.findTree oid = .ok tree →
        GitBackend.walkStartPoint tree ns.tail = .ok (some (names, .dir none entries child)) →
          entries.val = []) := by
  obtain ⟨rel, rfl⟩ := exists_relative accepted
  rw [List.tail_cons]
  by_cases double : ['/', '/'] <+: '/' :: rel
  · have absolute := walk_replaced double
    simp only [double, not_true_eq_false, false_or]
    refine ⟨fun files fs => ⟨fun keeps items listed => ?_, fun empty fuel => ?_⟩,
      fun git preOrder => ⟨fun keeps oid tree names entries child commit stored starts => ?_, fun empty => ?_⟩⟩
    · by_contra nonempty
      obtain ⟨item, items, rfl⟩ := List.exists_cons_of_ne_nil nonempty
      obtain ⟨first, ruleNodes, ruleMember, rules⟩ :=
        offers_default rulesName (Rule.loadFromSlice crates) CFGIndex.addRule absolute listed
      obtain ⟨second, linkNodes, linkMember, links⟩ :=
        offers_default linksName (Link.loadFromSlice crates) CFGIndex.addLink absolute listed
      exact not_keepsBelow ⟨ruleNodes, ruleMember, rules (max first second) (le_max_left _ _)⟩
        ⟨linkNodes, linkMember, links (max first second) (le_max_right _ _)⟩ (keeps (max first second))
    · exact keepsBelow_of_strips fun _ directory decode add => strips_default_empty directory decode add absolute empty
    · by_contra nonempty
      obtain ⟨name, rest, listed⟩ := List.exists_cons_of_ne_nil nonempty
      exact not_keepsBelow (offers_git rulesName _ _ preOrder absolute commit stored starts listed)
        (offers_git linksName _ _ preOrder absolute commit stored starts listed) keeps
    · exact keepsBelow_of_strips fun _ directory decode add => strips_git_empty directory decode add preOrder absolute empty
  · simp only [double, not_false_eq_true, true_or, iff_true]
    exact ⟨fun files fs fuel => keepsBelow_of_strips fun _ directory decode add => strips_default directory decode add double,
      fun git preOrder => keepsBelow_of_strips fun _ directory decode add => strips_git directory decode add preOrder double⟩

/-! ### A rule outside of the directory of rules -/

section Sample

theorem namespace_keepsBelow_iff_sample :
    KeepsBelow sampleCrates (defaultWalk sampleBackend 3 sampleVersion) sampleBackend ['/'] ∧
    KeepsBelow sampleCrates (gitWalk sampleGit sampleCommit) sampleGit.toStorageBackend ['/'] :=
  ⟨((namespace_keepsBelow_iff sampleCrates ['/'] rfl sampleVersion).1 ⟨['/']⟩ sampleSystem).mpr (.inl (by decide)) 3,
    ((namespace_keepsBelow_iff sampleCrates ['/'] rfl sampleCommit).2 sampleGit TreeWalk.documented_preOrder).mpr
      (.inl (by decide))⟩

def strayName : FileName := ⟨['x'], by decide⟩

def straySystem : FileSystem where
  root := .dir none ⟨[⟨['v'], plain_v⟩], nodup_v⟩ fun _ =>
    .dir none ⟨[strayName], by decide⟩ fun _ => .file (.ok (toUtf8 sampleRuleText))
  cwd := []

def strayBackend : StorageBackend := (⟨['/']⟩ : FilesystemBackend).toStorageBackend straySystem

theorem straySystem_lists : ∃ hash, (⟨['/']⟩ : FilesystemBackend).listDir straySystem sampleVersion ['/'] =
      .ok [{ absPath := ['/', 'x'], isDir := false, hash }] ∧
    FilesystemBackend.getObjByHash straySystem hash = .ok (toUtf8 sampleRuleText) := by
  have named : fromUtf8 sampleVersion.id = some ['v'] := fromUtf8_toUtf8 _
  have root : (⟨['/']⟩ : FilesystemBackend).nodeAt straySystem sampleVersion ['/'] = .ok
      (.dir none ⟨[strayName], by decide⟩ fun _ => .file (.ok (toUtf8 sampleRuleText))) :=
    (FilesystemBackend.nodeAt_eq_ok named rfl).mpr rfl
  obtain ⟨hash, listed, reads⟩ := FilesystemBackend.listDir_dir root
  exact ⟨hash strayName, listed, reads strayName (by simp) _ rfl⟩

/-- The namespace is accepted, and loading it panics at a file that is a rule. -/
theorem load_doubleSeparator_panics :
    CFGCenterInner.validNamespace ['/', '/'] = true ∧
    (∃ fuel, IndexBuilder.load sampleCrates strayBackend fuel ['/', '/'] sampleVersion =
      some (.error .panic)) ∧
    ¬ ∀ fuel, KeepsBelow sampleCrates (defaultWalk strayBackend fuel sampleVersion) strayBackend ['/', '/'] := by
  obtain ⟨hash, listed, read⟩ := straySystem_lists
  refine ⟨rfl, ⟨1, ?_⟩, fun keeps => ?_⟩
  · have decoded := sampleRule_decoded
    have stripped : Path.stripPrefix ['/', 'x'] ["rules".toList] = none := by decide
    have asked : indexFile strayBackend "rules".toList (Rule.loadFromSlice sampleCrates) CFGIndex.addRule
        (.empty : CFGIndex Nat) { absPath := ['/', 'x'], isDir := false, hash } = (.empty, Rust.panics) := by
      simp only [indexFile, strayBackend, FilesystemBackend.toStorageBackend, StorageBackend.withDefaultWalk, read,
        decoded, stripped]
      rfl
    have walked : strayBackend.walkDir (indexFile strayBackend "rules".toList (Rule.loadFromSlice sampleCrates)
        CFGIndex.addRule) 1 sampleVersion ['/'] (.empty : CFGIndex Nat) = some (.empty, Rust.panics) := by
      rw [strayBackend, FilesystemBackend.walkDir_eq, ← strayBackend]
      simp only [walkLoop, listed]
      simp only [visitNodes, asked]
      rfl
    have joined : Path.join ('/' :: "rules".toList) ['/'] = ['/'] := rfl
    have loaded : loadRule sampleCrates strayBackend 1 ['/', '/'] sampleVersion .empty = some Rust.panics := by
      simp only [loadRule, loadObjects, joined, walked]
      rfl
    simp only [IndexBuilder.load, loaded]
    rfl
  · have absolute : Path.isAbsolute ['/'] = true := rfl
    obtain ⟨first, ruleNodes, ruleMember, rules⟩ :=
      offers_default rulesName (Rule.loadFromSlice sampleCrates) CFGIndex.addRule absolute listed
    obtain ⟨second, linkNodes, linkMember, links⟩ :=
      offers_default linksName (Link.loadFromSlice sampleCrates) CFGIndex.addLink absolute listed
    exact not_keepsBelow ⟨ruleNodes, ruleMember, rules (max first second) (le_max_left _ _)⟩
      ⟨linkNodes, linkMember, links (max first second) (le_max_right _ _)⟩ (keeps (max first second))

end Sample

end Eafcc.CfgCenter
