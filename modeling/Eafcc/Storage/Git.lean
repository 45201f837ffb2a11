import Eafcc.Storage.WalkOrder
import Eafcc.Storage.Filesystem

namespace Eafcc.Storage

open Eafcc.Model

/-! # The walk of the git backend -/

/-! ## Trees of commits -/

inductive ObjectType where
  | tree
  | blob
deriving Repr, DecidableEq

/-- An entry of a tree object. Its name is missing where it is not UTF-8. -/
structure TreeEntry where
  name : Option Str
  id : ObjectID
  kind : ObjectType

def Node.objectType : Node → ObjectType
  | .file _ => .blob
  | .dir _ _ _ => .tree

/-- The tree of a commit with the ids of its entries. -/
structure CommitTree where
  root : Node
  id : List FileName → ObjectID

/-- The entry at the end of a path, which may have a separator after the name of a
directory. -/
def Node.getPath : Node → List Str → Option (List FileName × Node)
  | .dir _ entries child, segment :: rest =>
      match entries.val.find? fun name => name.text == segment with
      | none => none
      | some name =>
          if rest = [] ∨ (rest = [[]] ∧ (child name).isDir) then some ([name], child name)
          else ((child name).getPath rest).map fun (names, node) => (name :: names, node)
  | _, _ => none

section TreeWalk

variable {σ : Type}

def walkEntries (visit : FileName → σ → σ × Rust Git2Error Unit) :
    List FileName → σ → σ × Rust Git2Error Unit
  | [], state => (state, .ok ())
  | name :: names, state =>
      match visit name state with
      | (state, .ok ()) => walkEntries visit names state
      | (state, .error failure) => (state, .error failure)

/-- What is documented of walking in pre-order below a directory. An entry stands before
its children; a positive answer leaves the children out, and a negative one ends the walk
with an error. The callback gets the path of the directory with a separator at its end. -/
def Node.walk (id : List FileName → ObjectID) (callback : σ → Str → TreeEntry → σ × Rust Empty Int) :
    Node → List FileName → σ → σ × Rust Git2Error Unit
  | .file _, _, state => (state, .ok ())
  | .dir (some _) _ _, _, state => (state, Rust.fail "object not found".toList)
  | .dir none entries child, below, state =>
      walkEntries
        (fun name state =>
          match callback state (below.flatMap fun name => name.text ++ ['/'])
            { name := some name.text, id := id (below ++ [name]), kind := (child name).objectType } with
          | (state, .ok code) =>
              if code < 0 then (state, Rust.fail "git_tree_walk callback returned -1".toList)
              else if 0 < code then (state, .ok ())
              else (child name).walk id callback (below ++ [name]) state
          | (state, .error _) => (state, Rust.panics))
        entries.val state

/-- After an entry the walk goes into it or not. -/
theorem walked_entry (visited : σ × Rust Empty Int) (deeper : σ → σ × Rust Git2Error Unit) :
    (match visited with
      | (state, .ok code) =>
          if code < 0 then (state, Rust.fail "git_tree_walk callback returned -1".toList)
          else if 0 < code then (state, .ok ())
          else deeper state
      | (state, .error _) => (state, Rust.panics)).1 = visited.1 ∨
    (match visited with
      | (state, .ok code) =>
          if code < 0 then (state, Rust.fail "git_tree_walk callback returned -1".toList)
          else if 0 < code then (state, .ok ())
          else deeper state
      | (state, .error _) => (state, Rust.panics)).1 = (deeper visited.1).1 := by
  obtain ⟨state, answer⟩ := visited
  cases answer with
  | error failure => exact .inl rfl
  | ok code =>
      dsimp only
      split
      · exact .inl rfl
      · split
        · exact .inl rfl
        · exact .inr rfl

theorem walkEntries_keeps {visit : FileName → σ → σ × Rust Git2Error Unit} {keeps : σ → Prop}
    {listed : List FileName} (each : ∀ name s, keeps s → keeps (visit name s).1) {s : σ} (start : keeps s) :
    keeps (walkEntries visit listed s).1 := by
  induction listed generalizing s with
  | nil => exact start
  | cons name listed ih =>
      have after := each name s start
      rw [walkEntries]
      rcases visited : visit name s with ⟨next, result⟩
      rw [visited] at after
      cases result with
      | ok value => exact ih after
      | error failure => exact after

theorem Node.walk_keeps {id : List FileName → ObjectID} {callback : σ → Str → TreeEntry → σ × Rust Empty Int}
    {keeps : σ → Prop} (each : ∀ s path entry, keeps s → keeps (callback s path entry).1) {node : Node}
    {below : List FileName} {s : σ} (start : keeps s) : keeps (node.walk id callback below s).1 := by
  induction node generalizing below s with
  | file content => exact start
  | dir failure entries child ih =>
      cases failure with
      | some cause => exact start
      | none =>
          rw [Node.walk]
          refine walkEntries_keeps (fun name s start => ?_) start
          have here := each s (below.flatMap fun name => name.text ++ ['/'])
            { name := some name.text, id := id (below ++ [name]), kind := (child name).objectType } start
          rcases walked_entry (callback s (below.flatMap fun name => name.text ++ ['/'])
            { name := some name.text, id := id (below ++ [name]), kind := (child name).objectType })
            ((child name).walk id callback (below ++ [name])) with same | same
          · rw [same]
            exact here
          · rw [same]
            exact ih name here

end TreeWalk

/-- `Tree::walk` of git2 from a directory, which changes the state of its callback by
calling it only. -/
structure TreeWalk where
  walk : ∀ {σ : Type}, (List FileName → ObjectID) → (σ → Str → TreeEntry → σ × Rust Empty Int) → Node → σ →
    σ × Rust Git2Error Unit
  walk_keeps : ∀ {σ : Type} {id : List FileName → ObjectID} {callback : σ → Str → TreeEntry → σ × Rust Empty Int}
    {keeps : σ → Prop} {node : Node} {s : σ}, (∀ s path entry, keeps s → keeps (callback s path entry).1) →
    keeps s → keeps (walk id callback node s).1

/-- It visits the entries in pre-order as documented, with any text of its errors. -/
def TreeWalk.PreOrder (treeWalk : TreeWalk) : Prop :=
  ∀ (σ : Type) (id : List FileName → ObjectID) (callback : σ → Str → TreeEntry → σ × Rust Empty Int)
    (node : Node) (s : σ), (treeWalk.walk id callback node s).1 = (node.walk id callback [] s).1 ∧
      Rust.kind (treeWalk.walk id callback node s).2 = Rust.kind (node.walk id callback [] s).2

def TreeWalk.documented : TreeWalk where
  walk id callback node s := node.walk id callback [] s
  walk_keeps each start := Node.walk_keeps each start

theorem TreeWalk.documented_preOrder : TreeWalk.documented.PreOrder := fun _ _ _ _ _ => ⟨rfl, rfl⟩

/-! ## The backend -/

/-- What reading a version asks of a repository: the tree of a commit, the content of a
blob and a walk over a tree. -/
structure GitBackend where
  findTree : ObjectID → Except Git2Error CommitTree
  findBlob : ObjectID → Except Git2Error Bytes
  treeWalk : TreeWalk

namespace GitBackend

variable {σ : Type} (cb : σ → DirItem → σ × Rust WalkDirError WalkRetCtl)

def oidFromBytes (bytes : ObjectID) : Except Git2Error ObjectID :=
  if bytes.size = 20 then .ok bytes else .error "raw byte array must be 20 bytes".toList

def getObjByHash (backend : GitBackend) (hash : ObjectID) : Except StorageBackendError Bytes :=
  match oidFromBytes hash with
  | .error cause => .error (.git2Error cause)
  | .ok gitOid =>
      match backend.findBlob gitOid with
      | .error cause => .error (.git2Error cause)
      | .ok content => .ok content

/-- Where a walk starts, if there is a directory. -/
def walkStartPoint (tree : CommitTree) (path : Path) :
    Except StorageBackendError (Option (List FileName × Node)) :=
  if Path.stripPrefix path [] = some [] then .ok (some ([], tree.root))
  else
    match if Path.isAbsolute path then Path.stripPrefix path [] else some path with
    | none => .error .stripPrefixError
    | some pathForGit =>
        match tree.root.getPath (Path.segments pathForGit) with
        | none => .error (.git2Error "the path does not exist in the given tree".toList)
        | some (names, node) => .ok (if node.isDir then some (names, node) else none)

/-- The answer of the callback as a number. Its errors are dropped. -/
def controlCode : Rust WalkDirError WalkRetCtl → Rust Empty Int
  | .ok .next => .ok 0
  | .ok .skipCurrentNode => .ok 1
  | .ok .stopWalking => .ok (-1)
  | .error (.error _) => .ok 0
  | .error .panic => Rust.panics

def visitEntry (path : Path) (state : σ) (rootRelPath : Str) (entry : TreeEntry) : σ × Rust Empty Int :=
  match entry.name with
  | none => (state, .ok 0)
  | some filename =>
      let dirItem : DirItem :=
        { absPath := Path.join (Path.join path rootRelPath) filename
          isDir := entry.kind == .tree
          hash := entry.id }
      match cb state dirItem with
      | (state, answer) => (state, controlCode answer)

def walkDir (backend : GitBackend) (version : VersionItem) (path : Path) (state : σ) :
    σ × Rust StorageBackendError Unit :=
  match oidFromBytes version.id with
  | .error cause => (state, Rust.fail (.git2Error cause))
  | .ok oid =>
      match backend.findTree oid with
      | .error cause => (state, Rust.fail (.git2Error cause))
      | .ok tree =>
          match walkStartPoint tree path with
          | .error reason => (state, Rust.fail reason)
          | .ok none => (state, .ok ())
          | .ok (some (names, node)) =>
              match backend.treeWalk.walk (fun below => tree.id (names ++ below)) (visitEntry cb path) node state with
              | (state, result) => (state, Rust.mapError .git2Error result)

theorem walkDir_keeps {cb : σ → DirItem → σ × Rust WalkDirError WalkRetCtl} {keeps : σ → Prop}
    (each : ∀ s node, keeps s → keeps (cb s node).1) {backend : GitBackend} {version : VersionItem} {path : Path}
    {s s' : σ} {result : Rust StorageBackendError Unit} (start : keeps s)
    (walked : backend.walkDir cb version path s = (s', result)) : keeps s' := by
  have entries : ∀ s rootRelPath entry, keeps s → keeps (visitEntry cb path s rootRelPath entry).1 := by
    intro s rootRelPath entry holds
    unfold visitEntry
    split
    · exact holds
    · exact each s _ holds
  rw [show s' = (backend.walkDir cb version path s).1 by rw [walked]]
  unfold walkDir
  split
  · exact start
  · split
    · exact start
    · split
      · exact start
      · exact start
      · exact backend.treeWalk.walk_keeps entries start

/-- Directories are not listed. -/
def toStorageBackend (backend : GitBackend) : StorageBackend where
  getObjByHash := backend.getObjByHash
  listDir _ _ := .ok []
  walkDir cb _ version path state := some (backend.walkDir cb version path state)
  walkDir_keeps each start walked := walkDir_keeps each start (Option.some.inj walked)

end GitBackend

/-! ## The order of the nodes -/

/-- A walk in pre-order goes into a directory right after it has offered it. -/
def Node.preorder (verdict : Verdict) : Node → List FileName → List Sight
  | .file _, _ => []
  | .dir (some _) _ _, names => [.unlistable names]
  | .dir none entries child, names =>
      entries.val.flatMap fun name =>
        .node (names ++ [name]) (child name) ::
          if verdict.descends (names ++ [name]) (child name) then
            (child name).preorder verdict (names ++ [name])
          else []

/-- The verdict with its errors dropped. -/
def swallow (verdict : Verdict) : Verdict := fun names node =>
  match verdict names node with
  | .error (.error _) => .ok .next
  | answer => answer

/-- How the git walk ends: stopping it is an error. -/
def gitEnding : Option (Rust Unit Unit) → Rust Unit Unit
  | none => .ok ()
  | some (.ok ()) => Rust.fail ()
  | some (.error failure) => .error failure

theorem Node.preorder_of_next {verdict : Verdict} {node : Node} {names : List FileName}
    (next : verdict names node = .ok .next) :
    (if verdict.descends names node then node.preorder verdict names else []) =
      node.preorder verdict names := by
  cases node with
  | file content => simp [Node.preorder]
  | dir failure entries child => simp [Verdict.descends, Node.isDir, next]

section Sequence

variable {σ : Type} {cb : σ → DirItem → σ × Rust WalkDirError WalkRetCtl}
  {hash : List FileName → ObjectID} {verdict : Verdict} {root : Node} {top : List FileName}

theorem walkEntries_sights {visit : FileName → σ → σ × Rust Git2Error Unit}
    (block : FileName → List Sight) {listed : List FileName}
    (visits : ∀ name ∈ listed, ∀ s, (visit name s).1 = offerEach cb hash (offered verdict (block name)) s ∧
      Rust.kind (visit name s).2 = gitEnding (ending verdict (block name))) (s : σ) :
    (walkEntries visit listed s).1 = offerEach cb hash (offered verdict (listed.flatMap block)) s ∧
      Rust.kind (walkEntries visit listed s).2 = gitEnding (ending verdict (listed.flatMap block)) := by
  induction listed generalizing s with
  | nil => exact ⟨rfl, rfl⟩
  | cons name listed ih =>
      obtain ⟨state, kind⟩ := visits name (by simp) s
      have rest := ih (fun other member => visits other (List.mem_cons_of_mem name member))
      rcases visited : visit name s with ⟨next, result⟩
      rw [visited] at state kind
      simp only [walkEntries, visited, List.flatMap_cons, ending_append]
      cases ends : ending verdict (block name) with
      | none =>
          rw [ends] at kind
          have goes : result = .ok () := Rust.kind_eq_ok.mp kind
          obtain ⟨state', kind'⟩ := rest next
          subst goes
          rw [offered_append _ _ ends]
          refine ⟨?_, kind'⟩
          dsimp only at state
          rw [state', state]
          simp [offerEach]
      | some early =>
          rw [ends] at kind
          rw [offered_append_of_ending ends]
          cases result with
          | ok value => cases early <;> cases kind
          | error failure => exact ⟨state, kind⟩

theorem visitEntry_eq {path : Path} (leads : Leads path top) (below : List FileName) (name : FileName)
    (node : Node) (s : σ) :
    GitBackend.visitEntry cb path s (below.flatMap fun name => name.text ++ ['/'])
        { name := some name.text, id := hash (top ++ (below ++ [name])), kind := node.objectType } =
      ((cb s (itemOf hash (top ++ (below ++ [name])) node)).1,
        GitBackend.controlCode (cb s (itemOf hash (top ++ (below ++ [name])) node)).2) := by
  have joined : Path.join (Path.join path (below.flatMap fun name => name.text ++ ['/'])) name.text =
      filePath (top ++ (below ++ [name])) := by
    rw [leads.join_names, (leads_dirPath _).join, List.append_assoc]
  have kind : (node.objectType == .tree) = node.isDir := by
    cases node <;> rfl
  simp only [GitBackend.visitEntry, joined, kind]
  rfl

/-- The git walk offers the nodes of the tree in pre-order up to the first place that
ends it. -/
theorem Node.walk_preorder {path : Path} (leads : Leads path top)
    (agrees : AnswersAs cb hash root top verdict) {node : Node} {below : List FileName}
    (found : root.find (top ++ below) = some node) (s : σ) :
    (node.walk (fun names => hash (top ++ names)) (GitBackend.visitEntry cb path) below s).1 =
        offerEach cb hash (offered (swallow verdict) (node.preorder (swallow verdict) (top ++ below))) s ∧
      Rust.kind (node.walk (fun names => hash (top ++ names)) (GitBackend.visitEntry cb path) below s).2 =
        gitEnding (ending (swallow verdict) (node.preorder (swallow verdict) (top ++ below))) := by
  induction node generalizing below s with
  | file content => exact ⟨rfl, rfl⟩
  | dir failure entries child ih =>
      cases failure with
      | some cause => exact ⟨rfl, rfl⟩
      | none =>
          simp only [Node.walk, Node.preorder]
          apply walkEntries_sights
          intro name listed s
          have located : root.find (top ++ (below ++ [name])) = some (child name) := by
            rw [← List.append_assoc]
            exact find_child found listed
          have answer := agrees s (below ++ [name]) (child name) (by simp) located
          have deeper := fun s => ih name located s
          rw [visitEntry_eq leads below name (child name) s]
          rcases asked : cb s (itemOf hash (top ++ (below ++ [name])) (child name)) with ⟨next, control⟩
          rw [asked] at answer
          simp only [List.append_assoc]
          match control with
          -- An error is answered like `Next`.
          | .ok .next | .error (.error _) =>
              have next' : swallow verdict (top ++ (below ++ [name])) (child name) = .ok .next := by
                simp [swallow, ← answer, Rust.kind, Rust.mapError]
              rw [Node.preorder_of_next next']
              simpa [offered, ending, next', offerEach, asked, GitBackend.controlCode] using deeper next
          | .ok .skipCurrentNode =>
              have skips : swallow verdict (top ++ (below ++ [name])) (child name) = .ok .skipCurrentNode := by
                simp [swallow, ← answer, Rust.kind, Rust.mapError]
              simp [offered, ending, skips, offerEach, asked, GitBackend.controlCode, Verdict.descends,
                gitEnding, Rust.kind, Rust.mapError]
          | .ok .stopWalking =>
              have stops : swallow verdict (top ++ (below ++ [name])) (child name) = .ok .stopWalking := by
                simp [swallow, ← answer, Rust.kind, Rust.mapError]
              simp [offered, ending, stops, offerEach, asked, GitBackend.controlCode, gitEnding,
                Rust.kind, Rust.mapError, Rust.fail]
          | .error .panic =>
              have panics : swallow verdict (top ++ (below ++ [name])) (child name) = .error .panic := by
                simp [swallow, ← answer, Rust.kind, Rust.mapError]
              simp [offered, ending, panics, offerEach, asked, GitBackend.controlCode, gitEnding,
                Rust.kind, Rust.mapError, Rust.panics]

end Sequence

section Start

variable {path : Path} {names : List FileName}

theorem Node.getPath_names {node found : Node} (nonempty : names ≠ []) (finds : node.find names = some found) :
    node.getPath (names.map FileName.text) = some (names, found) := by
  induction names generalizing node with
  | nil => exact absurd rfl nonempty
  | cons name rest ih =>
      cases node with
      | file content => simp [Node.find] at finds
      | dir failure entries child =>
          simp only [Node.find] at finds
          split at finds
          · rename_i listed
            have first : entries.val.find? (fun other => other.text == name.text) = some name := by
              obtain ⟨other, chosen⟩ := Option.isSome_iff_exists.mp
                (List.find?_isSome.mpr ⟨name, listed, beq_self_eq_true name.text⟩ :
                  (entries.val.find? fun other => other.text == name.text).isSome)
              have same : other.text = name.text := by simpa using List.find?_some chosen
              rw [chosen, FileName.text_injective same]
            simp only [List.map_cons, Node.getPath, first]
            cases rest with
            | nil =>
                simp only [Node.find, Option.some.injEq] at finds
                simp [finds]
            | cons second rest =>
                have proper := second.plain.1
                rw [if_neg (by simp [proper]), ih (by simp) finds]
                rfl
          · cases finds

/-- The lookup below the root, for a path other than the root's own. -/
theorem GitBackend.walkStartPoint_below {tree : CommitTree} (leads : Leads path names) (nonempty : names ≠ []) :
    GitBackend.walkStartPoint tree path =
      match tree.root.getPath (names.map FileName.text) with
      | none => .error (.git2Error "the path does not exist in the given tree".toList)
      | some (names, node) => .ok (if node.isDir then some (names, node) else none) := by
  have stripped := stripPrefix_root leads
  have absolute : Path.isAbsolute path = true := by
    by_contra relative
    rw [Path.stripPrefix, if_neg relative] at stripped
    cases stripped
  unfold GitBackend.walkStartPoint
  rw [stripped, if_neg (by simpa using relativePath_ne_nil nonempty), if_pos absolute]
  simp only [segments_relativePath nonempty]

theorem GitBackend.walkStartPoint_names {tree : CommitTree} {node : Node} (leads : Leads path names)
    (found : tree.root.find names = some node) (isDir : node.isDir = true) :
    GitBackend.walkStartPoint tree path = .ok (some (names, node)) := by
  by_cases empty : names = []
  · subst empty
    simp only [Node.find, Option.some.injEq] at found
    rw [GitBackend.walkStartPoint, stripPrefix_root leads, if_pos (by rfl), found]
  · rw [GitBackend.walkStartPoint_below leads empty, Node.getPath_names empty found]
    simp only [isDir, if_true]

/-- The walk of a version whose commit is stored, from one of its directories. -/
theorem GitBackend.walkDir_stored {σ : Type} (cb : σ → DirItem → σ × Rust WalkDirError WalkRetCtl)
    {git : GitBackend} (preOrder : git.treeWalk.PreOrder) {version : VersionItem} {oid : ObjectID} {tree : CommitTree}
    {node : Node} (commit : oidFromBytes version.id = .ok oid) (stored : git.findTree oid = .ok tree)
    (starts : walkStartPoint tree path = .ok (some (names, node))) (s : σ) :
    (git.walkDir cb version path s).1 =
        (node.walk (fun below => tree.id (names ++ below)) (visitEntry cb path) [] s).1 ∧
      Rust.kind (git.walkDir cb version path s).2 =
        Rust.kind (node.walk (fun below => tree.id (names ++ below)) (visitEntry cb path) [] s).2 := by
  simp only [walkDir, commit, stored, starts, Rust.kind_mapError]
  exact preOrder _ _ _ _ _

end Start

section Order

variable {verdict : Verdict} {node : Node} {names : List FileName}

/-- A node with another one below it is a directory. -/
theorem isDir_of_find {below : List FileName} {found : Node} (finds : node.find below = some found)
    (nonempty : below ≠ []) : node.isDir = true := by
  cases node with
  | dir failure entries child => rfl
  | file content =>
      obtain ⟨name, rest, rfl⟩ := List.exists_cons_of_ne_nil nonempty
      cases finds

/-- A walk goes into every node between `node` and the one at `path`. -/
def GoesInto (verdict : Verdict) (names : List FileName) (node : Node) (path : List FileName) : Prop :=
  ∀ above below middle, path = above ++ below → above ≠ [] → below ≠ [] → node.find above = some middle →
    verdict (names ++ above) middle = .ok .next

theorem goesInto_single {name : FileName} : GoesInto verdict names node [name] := by
  intro above below middle split first second
  rcases List.append_eq_singleton_iff.mp split.symm with ⟨rfl, -⟩ | ⟨-, rfl⟩
  · exact absurd rfl first
  · exact absurd rfl second

theorem goesInto_cons {entries : Listing} {child : FileName → Node} {name : FileName} {rest : List FileName}
    (listed : name ∈ entries.val) (deeper : rest ≠ []) :
    GoesInto verdict names (.dir none entries child) (name :: rest) ↔
      verdict (names ++ [name]) (child name) = .ok .next ∧
        GoesInto verdict (names ++ [name]) (child name) rest := by
  constructor
  · intro goes
    refine ⟨goes [name] rest (child name) rfl (by simp) deeper (by simp [Node.find, listed]), ?_⟩
    intro above below middle split first second located
    have passed := goes (name :: above) below middle (by rw [split]; rfl) (by simp) second
      (by simpa [Node.find, listed] using located)
    simpa using passed
  · intro goes above below middle split first second located
    obtain ⟨next, goes⟩ := goes
    rcases List.cons_eq_append_iff.mp split with ⟨empty, -⟩ | ⟨above', rfl, split'⟩
    · exact absurd empty first
    · simp only [Node.find, listed, if_true] at located
      by_cases top : above' = []
      · subst top
        simp only [Node.find, Option.some.injEq] at located
        subst located
        exact next
      · simpa using goes above' below middle split' top second located

/-- What a walk in pre-order offers are the nodes of which it goes into every
directory above. -/
theorem Node.mem_preorder (listable : node.Listable) {sight : Sight} :
    sight ∈ node.preorder verdict names ↔ ∃ path found, path ≠ [] ∧ node.find path = some found ∧
      GoesInto verdict names node path ∧ sight = .node (names ++ path) found := by
  induction node generalizing names with
  | file content =>
      simp only [preorder, List.not_mem_nil, false_iff]
      intro reached
      obtain ⟨path, found, nonempty, finds, -⟩ := reached
      cases path with
      | nil => exact nonempty rfl
      | cons name rest => cases finds
  | dir failure entries child ih =>
      obtain ⟨rfl, children⟩ := listable
      simp only [preorder, List.mem_flatMap, List.mem_cons]
      constructor
      · intro offers
        obtain ⟨name, listed, here | deeper⟩ := offers
        · exact ⟨[name], child name, by simp, by simp [find, listed], goesInto_single, here⟩
        · split at deeper
          · rename_i descends
            obtain ⟨path, found, nonempty, finds, goes, same⟩ := (ih name (children name listed)).mp deeper
            refine ⟨name :: path, found, by simp, by simpa [find, listed] using finds, ?_, by simpa using same⟩
            exact (goesInto_cons listed nonempty).mpr ⟨(Verdict.descends_iff.mp descends).2, goes⟩
          · cases deeper
      · intro reached
        obtain ⟨path, found, nonempty, finds, goes, rfl⟩ := reached
        cases path with
        | nil => exact absurd rfl nonempty
        | cons name rest =>
            simp only [find] at finds
            split at finds
            · rename_i listed
              refine ⟨name, listed, ?_⟩
              by_cases last : rest = []
              · subst last
                simp only [find, Option.some.injEq] at finds
                exact .inl (by rw [finds])
              · obtain ⟨next, goes⟩ := (goesInto_cons listed last).mp goes
                rw [if_pos (Verdict.descends_iff.mpr ⟨isDir_of_find finds last, next⟩)]
                exact .inr ((ih name (children name listed)).mpr ⟨rest, found, last, finds, goes, by simp⟩)
            · cases finds

theorem flatMap_filter {α β : Type} (chosen : α → Bool) (f : α → List β) (items : List α) :
    (items.filter chosen).flatMap f = items.flatMap fun item => if chosen item then f item else [] := by
  induction items with
  | nil => rfl
  | cons item items ih => by_cases here : chosen item = true <;> simp [here, ih]

/-- Where every directory can be listed, both orders have the same sights. -/
theorem Node.sights_perm_preorder (listable : node.Listable) (isDir : node.isDir = true) :
    (node.sights verdict names).Perm (node.preorder verdict names) := by
  induction node generalizing names with
  | file content => cases isDir
  | dir failure entries child ih =>
      obtain ⟨rfl, children⟩ := listable
      simp only [Node.sights, Node.preorder]
      refine .trans (.append_left _ ?_) (List.map_append_flatMap_perm _ _ _)
      rw [← flatMap_filter]
      refine (List.Perm.flatMap_right _ (List.reverse_perm _)).trans (List.Perm.flatMap_left _ ?_)
      intro name member
      obtain ⟨listed, descends⟩ := List.mem_filter.mp member
      exact ih name (children name listed) (Verdict.descends_iff.mp descends).1

theorem Node.preorder_swallow (passes : ∀ sight ∈ node.preorder verdict names, Passes verdict sight) :
    node.preorder (swallow verdict) names = node.preorder verdict names := by
  induction node generalizing names with
  | file content => rfl
  | dir failure entries child ih =>
      cases failure with
      | some cause => rfl
      | none =>
          simp only [Node.preorder]
          apply List.flatMap_congr
          intro name listed
          have here : Passes verdict (.node (names ++ [name]) (child name)) := by
            apply passes
            exact List.mem_flatMap.mpr ⟨name, listed, List.mem_cons_self⟩
          have same : swallow verdict (names ++ [name]) (child name) =
              verdict (names ++ [name]) (child name) := by
            rcases here with next | skips
            · simp [swallow, next]
            · simp [swallow, skips]
          have descends : (swallow verdict).descends (names ++ [name]) (child name) =
              verdict.descends (names ++ [name]) (child name) := by
            simp only [Verdict.descends, same]
          rw [descends]
          split
          · rename_i goes
            rw [ih name]
            intro sight member
            apply passes
            refine List.mem_flatMap.mpr ⟨name, listed, List.mem_cons_of_mem _ ?_⟩
            rw [if_pos goes]
            exact member
          · rfl

/-- The commit of a version is stored with this tree. -/
def GitBackend.Stores (git : GitBackend) (version : VersionItem) (tree : CommitTree) : Prop :=
  ∃ oid, oidFromBytes version.id = .ok oid ∧ git.findTree oid = .ok tree

theorem GitBackend.Stores.unique {git : GitBackend} {version : VersionItem} {tree tree' : CommitTree}
    (first : git.Stores version tree) (second : git.Stores version tree') : tree = tree' := by
  obtain ⟨oid, commit, stored⟩ := first
  obtain ⟨oid', commit', stored'⟩ := second
  obtain rfl := Except.ok.inj (commit.symm.trans commit')
  exact Except.ok.inj (stored.symm.trans stored')

end Order

/-! ## Both walks over one tree -/

section Outcome

/-- What a walk came to: the nodes that it offered and its result. -/
structure Outcome where
  nodes : List (Path × Bool)
  result : Rust StorageBackendError Unit

variable {σ : Type}

/-- A callback with a record of the nodes that it was offered. -/
def recording (cb : σ → DirItem → σ × Rust WalkDirError WalkRetCtl) :
    σ × List (Path × Bool) → DirItem → (σ × List (Path × Bool)) × Rust WalkDirError WalkRetCtl :=
  fun (state, nodes) item =>
    match cb state item with
    | (state, answer) => ((state, nodes ++ [(item.absPath, item.isDir)]), answer)

def Outcome.of (walked : (σ × List (Path × Bool)) × Rust StorageBackendError Unit) : Outcome :=
  { nodes := walked.1.2, result := walked.2 }

variable (answer : Path → Bool → Except WalkDirError WalkRetCtl)

/-- An error of the callback ends the walk with an error and offers nothing more;
stopping the walk makes it succeed. -/
def Outcome.Obeys (outcome : Outcome) : Prop :=
  ∀ before path isDir after, outcome.nodes = before ++ (path, isDir) :: after →
    (∀ reason, answer path isDir = .error reason → after = [] ∧ outcome.result ≠ .ok ()) ∧
    (answer path isDir = .ok .stopWalking → outcome.result = .ok ())

structure SameOutcome (first second : Outcome) : Prop where
  result : first.result = .ok () ↔ second.result = .ok ()
  nodes : first.result = .ok () → second.result = .ok () → ∀ node, node ∈ first.nodes ↔ node ∈ second.nodes
  obey : first.Obeys answer ∧ second.Obeys answer

/-- The callback never stops a walk or never fails. -/
def Tame : Prop :=
  (∀ path isDir, answer path isDir ≠ .ok .stopWalking) ∨
    ∀ path isDir reason, answer path isDir ≠ .error reason

/-- The callback neither fails nor stops the walk at a node whose directories, from
where the walk starts, it goes into. -/
def GoesOn (root : Node) (names : List FileName) : Prop :=
  ∀ path node, path ≠ [] → root.find (names ++ path) = some node →
    (∀ above below, path = above ++ below → above ≠ [] → below ≠ [] →
      answer (filePath (names ++ above)) true = .ok .next) →
    answer (filePath (names ++ path)) node.isDir = .ok .next ∨
      answer (filePath (names ++ path)) node.isDir = .ok .skipCurrentNode

def verdictOf : Verdict := fun names node =>
  Rust.kind ((answer (filePath names) node.isDir).mapError .error)

variable {answer} {names : List FileName} {node : Node} {root : Node}

theorem verdictOf_eq_ok {control : WalkRetCtl} :
    verdictOf answer names node = .ok control ↔ answer (filePath names) node.isDir = .ok control := by
  rw [verdictOf, Rust.kind_eq_ok]
  cases answer (filePath names) node.isDir <;> simp [Except.mapError]

theorem verdictOf_ne_panic : verdictOf answer names node ≠ .error .panic := by
  rw [verdictOf, ne_eq, Rust.kind_eq_panic]
  cases answer (filePath names) node.isDir <;> simp [Except.mapError]

theorem passes_verdictOf : Passes (verdictOf answer) (.node names node) ↔
    answer (filePath names) node.isDir = .ok .next ∨
      answer (filePath names) node.isDir = .ok .skipCurrentNode := by
  rw [Passes, verdictOf_eq_ok, verdictOf_eq_ok]

theorem goesOn_iff (found : root.find names = some node) (listable : node.Listable) :
    GoesOn answer root names ↔
      ∀ sight ∈ node.preorder (verdictOf answer) names, Passes (verdictOf answer) sight := by
  have below : ∀ path, root.find (names ++ path) = node.find path := by
    intro path
    rw [Node.find_append, found, Option.bind_some]
  constructor
  · intro goes sight member
    obtain ⟨path, reached, nonempty, finds, above, rfl⟩ := (Node.mem_preorder listable).mp member
    rw [passes_verdictOf]
    apply goes path reached nonempty (by rw [below, finds])
    intro first second split left right
    have through : (node.find first).bind (fun middle => middle.find second) = some reached := by
      rw [← Node.find_append, ← split, finds]
    obtain ⟨middle, located, beneath⟩ := Option.bind_eq_some_iff.mp through
    have next := verdictOf_eq_ok.mp (above first second middle split left right located)
    rwa [isDir_of_find beneath right] at next
  · intro passes path reached nonempty finds above
    rw [← passes_verdictOf]
    apply passes
    rw [below] at finds
    refine (Node.mem_preorder listable).mpr ⟨path, reached, nonempty, finds, ?_, rfl⟩
    intro first second middle split left right located
    rw [verdictOf_eq_ok]
    have beneath : middle.find second = some reached := by
      rw [split, Node.find_append, located, Option.bind_some] at finds
      exact finds
    rw [isDir_of_find beneath right]
    exact above first second split left right

/-! ### What the two walks come to -/

def shown (nodes : List (List FileName × Node)) : List (Path × Bool) :=
  nodes.map fun (names, node) => (filePath names, node.isDir)

variable {cb : σ → DirItem → σ × Rust WalkDirError WalkRetCtl} {hash : List FileName → ObjectID}
  {path : Path} {verdict : Verdict} {sights : List Sight}

theorem offerEach_recording (nodes : List (List FileName × Node)) (s : σ) (seen : List (Path × Bool)) :
    (offerEach (recording cb) hash nodes (s, seen)).2 = seen ++ shown nodes := by
  induction nodes generalizing s seen with
  | nil => simp [offerEach, shown]
  | cons node nodes ih =>
      have rest := ih (cb s (itemOf hash node.1 node.2)).1 (seen ++ [(filePath node.1, node.2.isDir)])
      simp only [shown, List.map_cons]
      rw [List.append_assoc] at rest
      exact rest

theorem recording_answersAs (depends : ∀ s item, (cb s item).2 = (answer item.absPath item.isDir).mapError .error)
    (hash : List FileName → ObjectID) (root : Node) (names : List FileName) :
    AnswersAs (recording cb) hash root names (verdictOf answer) := by
  intro s path node _ _
  simp only [recording, depends, itemOf]
  rfl

theorem ending_ne_ok (never : ∀ names node, verdict names node ≠ .ok .stopWalking) :
    ending verdict sights ≠ some (.ok ()) := by
  induction sights with
  | nil => simp [ending]
  | cons sight rest ih =>
      cases sight with
      | unlistable names => simp [ending, Rust.fail]
      | node names node =>
          simp only [ending]
          split
          · rename_i stops
            exact absurd stops (never names node)
          · exact ih
          · simp

theorem ending_ne_error
    (never : ∀ sight ∈ sights, ∃ names node control, sight = .node names node ∧ verdict names node = .ok control)
    (failure : Failure Unit) : ending verdict sights ≠ some (.error failure) := by
  induction sights with
  | nil => simp [ending]
  | cons sight rest ih =>
      obtain ⟨names, node, control, rfl, answers⟩ := never sight (by simp)
      have rest' := ih fun other member => never other (List.mem_cons_of_mem _ member)
      simp only [ending, answers]
      cases control with
      | next => exact rest'
      | skipCurrentNode => exact rest'
      | stopWalking => simp

/-- Where nothing ends a walk it offers everything that it meets. -/
theorem offered_of_passes (passes : ∀ sight ∈ sights, Passes verdict sight) :
    (offered verdict sights).map (fun (names, node) => Sight.node names node) = sights := by
  induction sights with
  | nil => rfl
  | cons sight rest ih =>
      have rest' := ih fun other member => passes other (List.mem_cons_of_mem _ member)
      have here := passes sight (by simp)
      cases sight with
      | unlistable names => exact here.elim
      | node names node =>
          rcases here with next | skips
          · simp [offered, next, rest']
          · simp [offered, skips, rest']

theorem obeys_of_passes (passes : ∀ sight ∈ sights, Passes (verdictOf answer) sight)
    (result : Rust StorageBackendError Unit) :
    Outcome.Obeys answer ⟨shown (offered (verdictOf answer) sights), result⟩ := by
  intro before path isDir after split
  have member : (path, isDir) ∈ shown (offered (verdictOf answer) sights) := by
    rw [show shown (offered (verdictOf answer) sights) = _ from split]
    simp
  obtain ⟨⟨names, node⟩, offers, same⟩ := List.mem_map.mp member
  cases same
  have sight : Sight.node names node ∈ sights := by
    rw [← offered_of_passes passes]
    exact List.mem_map_of_mem offers
  have goes := passes_verdictOf.mp (passes _ sight)
  constructor
  · intro reason errs
    rw [errs] at goes
    simp at goes
  · intro stops
    rw [stops] at goes
    simp at goes

theorem preorder_answers {answers : Verdict} (listable : node.Listable)
    (never : ∀ names node, ∃ control, verdict names node = .ok control) :
    ∀ sight ∈ node.preorder answers names,
      ∃ names node control, sight = .node names node ∧ verdict names node = .ok control := by
  intro sight member
  obtain ⟨path, reached, -, -, -, rfl⟩ := (Node.mem_preorder listable).mp member
  obtain ⟨control, answers⟩ := never (names ++ path) reached
  exact ⟨_, _, control, rfl, answers⟩

theorem passes_swallow {sight : Sight} (passes : Passes verdict sight) : Passes (swallow verdict) sight := by
  cases sight with
  | unlistable names => exact passes
  | node names node =>
      rcases passes with next | skips
      · exact .inl (by simp [swallow, next])
      · exact .inr (by simp [swallow, skips])

theorem sight_injective :
    Function.Injective fun entry : List FileName × Node => Sight.node entry.1 entry.2 := by
  intro first second same
  obtain ⟨names, node⟩ := first
  cases same
  rfl

theorem offered_swallow (passes : ∀ sight ∈ sights, Passes verdict sight) :
    offered (swallow verdict) sights = offered verdict sights := by
  have swallowed := offered_of_passes fun sight member => passes_swallow (passes sight member)
  rw [← offered_of_passes passes] at swallowed
  have same := List.map_injective_iff.mpr sight_injective swallowed
  rwa [offered_of_passes passes] at same

/-- A callback that does not stop the walk does not end the git walk, which drops its
errors. -/
theorem ending_swallow (listable : node.Listable)
    (never : ∀ path isDir, answer path isDir ≠ .ok .stopWalking) :
    ending (swallow (verdictOf answer)) (node.preorder (swallow (verdictOf answer)) names) = none := by
  have swallows : ∀ names node, ∃ control, swallow (verdictOf answer) names node = .ok control ∧
      control ≠ .stopWalking := by
    intro names node
    match asked : verdictOf answer names node with
    | .ok control =>
        refine ⟨control, by simp [swallow, asked], fun stops => ?_⟩
        exact never _ _ (verdictOf_eq_ok.mp (stops ▸ asked))
    | .error (.error reason) => exact ⟨.next, by simp [swallow, asked], by simp⟩
    | .error .panic => exact absurd asked verdictOf_ne_panic
  rw [ending_eq_none]
  intro sight member
  obtain ⟨path, reached, -, -, -, rfl⟩ := (Node.mem_preorder listable).mp member
  obtain ⟨control, answers, goes⟩ := swallows (names ++ path) reached
  cases control with
  | next => exact .inl answers
  | skipCurrentNode => exact .inr answers
  | stopWalking => exact absurd rfl goes

theorem verdictOf_answers (never : ∀ path isDir reason, answer path isDir ≠ .error reason)
    (names : List FileName) (node : Node) : ∃ control, verdictOf answer names node = .ok control := by
  cases asked : answer (filePath names) node.isDir with
  | ok control => exact ⟨control, verdictOf_eq_ok.mpr asked⟩
  | error reason => exact absurd asked (never _ _ reason)

theorem swallow_verdictOf (never : ∀ path isDir reason, answer path isDir ≠ .error reason) :
    swallow (verdictOf answer) = verdictOf answer := by
  funext names node
  obtain ⟨control, asked⟩ := verdictOf_answers never names node
  simp [swallow, asked]

section Compared

variable {first second : Outcome}
  (firstNodes : first.nodes = shown (offered (verdictOf answer) (node.sights (verdictOf answer) names)))
  (firstResult : Rust.kind first.result =
    (ending (verdictOf answer) (node.sights (verdictOf answer) names)).getD (.ok ()))
  (secondNodes : second.nodes = shown
    (offered (swallow (verdictOf answer)) (node.preorder (swallow (verdictOf answer)) names)))
  (secondResult : Rust.kind second.result = gitEnding
    (ending (swallow (verdictOf answer)) (node.preorder (swallow (verdictOf answer)) names)))

include firstResult secondResult in
/-- A walk that ends early does not come to the same as the other one. -/
theorem passes_of_sameResult (tame : Tame answer) (isDir : node.isDir = true) (listable : node.Listable)
    (same : first.result = .ok () ↔ second.result = .ok ()) :
    ∀ sight ∈ node.preorder (verdictOf answer) names, Passes (verdictOf answer) sight := by
  have sameSights : (node.sights (verdictOf answer) names).Perm (node.preorder (verdictOf answer) names) :=
    Node.sights_perm_preorder listable isDir
  by_contra stopped
  have ends : ∀ sights : List Sight, sights.Perm (node.preorder (verdictOf answer) names) →
      ∃ early, ending (verdictOf answer) sights = some early := by
    intro sights perm
    rw [← Option.isSome_iff_exists, Option.isSome_iff_ne_none, ne_eq, ending_eq_none]
    intro passes
    exact stopped fun sight member => passes sight (perm.mem_iff.mpr member)
  obtain ⟨early, firstEnds⟩ := ends _ sameSights
  rw [firstEnds, Option.getD_some] at firstResult
  rcases tame with never | never
  · -- The default walk meets an error first, and the git walk drops it.
    have stops : ∀ names node, verdictOf answer names node ≠ .ok .stopWalking :=
      fun names node => mt verdictOf_eq_ok.mp (never _ _)
    have failed : first.result ≠ .ok () := by
      intro succeeded
      rw [succeeded] at firstResult
      exact ending_ne_ok stops (firstEnds.trans (congrArg some firstResult.symm))
    rw [ending_swallow listable never] at secondResult
    exact failed (same.mpr (Rust.kind_eq_ok.mp secondResult))
  · -- Nothing fails, and only the default walk succeeds when it is stopped.
    have succeeded : first.result = .ok () := by
      cases early with
      | ok value => exact Rust.kind_eq_ok.mp firstResult
      | error failure =>
          refine absurd firstEnds (ending_ne_error (fun sight member => ?_) failure)
          exact preorder_answers listable (verdictOf_answers never) sight (sameSights.mem_iff.mp member)
    obtain ⟨early', secondEnds⟩ := ends _ (List.Perm.refl _)
    rw [swallow_verdictOf never, secondEnds, Rust.kind_eq_ok.mpr (same.mp succeeded)] at secondResult
    match early' with
    | .ok () => cases secondResult
    | .error failure => cases secondResult

include firstNodes firstResult secondNodes secondResult

theorem sameOutcome_of_passes (isDir : node.isDir = true) (listable : node.Listable)
    (passes : ∀ sight ∈ node.preorder (verdictOf answer) names, Passes (verdictOf answer) sight) :
    SameOutcome answer first second := by
  have sameSights : (node.sights (verdictOf answer) names).Perm (node.preorder (verdictOf answer) names) :=
    Node.sights_perm_preorder listable isDir
  have firstPasses : ∀ sight ∈ node.sights (verdictOf answer) names, Passes (verdictOf answer) sight :=
    fun sight member => passes sight (sameSights.mem_iff.mp member)
  rw [Node.preorder_swallow passes, offered_swallow passes] at secondNodes
  have secondPasses := fun sight member => passes_swallow (passes sight member)
  rw [Node.preorder_swallow passes, ending_eq_none.mpr secondPasses] at secondResult
  rw [ending_eq_none.mpr firstPasses] at firstResult
  have firstSucceeds : first.result = .ok () := Rust.kind_eq_ok.mp firstResult
  have secondSucceeds : second.result = .ok () := Rust.kind_eq_ok.mp secondResult
  have sameNodes : (offered (verdictOf answer) (node.sights (verdictOf answer) names)).Perm
      (offered (verdictOf answer) (node.preorder (verdictOf answer) names)) := by
    rw [← List.map_perm_map_iff sight_injective]
    have perm := sameSights
    rw [← offered_of_passes firstPasses, ← offered_of_passes passes] at perm
    exact perm
  obtain ⟨firstOffered, firstEnd⟩ := first
  obtain ⟨secondOffered, secondEnd⟩ := second
  dsimp only at firstNodes secondNodes
  subst firstNodes secondNodes
  exact
    { result := iff_of_true firstSucceeds secondSucceeds
      nodes := fun _ _ node => (sameNodes.map _).mem_iff
      obey := ⟨obeys_of_passes firstPasses _, obeys_of_passes passes _⟩ }

/-- The walks come to the same exactly if nothing ends one of them early. -/
theorem sameOutcome_iff (tame : Tame answer) (isDir : node.isDir = true) (listable : node.Listable) :
    SameOutcome answer first second ↔
      ∀ sight ∈ node.preorder (verdictOf answer) names, Passes (verdictOf answer) sight := by
  constructor
  · intro same
    exact passes_of_sameResult firstResult secondResult tame isDir listable same.result
  · intro passes
    exact sameOutcome_of_passes firstNodes firstResult secondNodes secondResult isDir listable passes

end Compared

/-- The default walk and the git walk over one tree come to the same exactly if the
callback neither fails nor stops them at a node that they reach. -/
theorem GitBackend.walkDir_same_iff (answer : Path → Bool → Except WalkDirError WalkRetCtl)
    (tame : Tame answer) (cb : σ → DirItem → σ × Rust WalkDirError WalkRetCtl)
    (depends : ∀ s item, (cb s item).2 = (answer item.absPath item.isDir).mapError .error)
    (git : GitBackend) (preOrder : git.treeWalk.PreOrder)
    (commit : VersionItem) (oid : commit.id.size = 20) (tree : CommitTree)
    (stored : git.findTree commit.id = .ok tree)
    (backend : StorageBackend) (version : VersionItem) (hash : List FileName → ObjectID)
    (serves : Serves backend version tree.root hash)
    (names : List FileName) (node : Node) (found : tree.root.find names = some node)
    (isDir : node.isDir = true) (listable : node.Listable) (path : Path) (leads : Leads path names) (s : σ) :
    ∃ enough walked, (∀ fuel, enough ≤ fuel →
        backend.walkDir (recording cb) fuel version path (s, []) = some walked) ∧
      (SameOutcome answer (.of walked) (.of (git.walkDir (recording cb) commit path (s, []))) ↔
        GoesOn answer tree.root names) := by
  have located : List.Forall₂ Leads [path] [names] := .cons leads .nil
  have terminates : ∃ walked, walkLoop (recording cb) (backend.listDir version)
      (([names].map (dirsAt tree.root)).sum + 1) [path] (s, []) = some walked :=
    walkLoop_terminates serves located (s, []) _ (Nat.lt_succ_self _)
  obtain ⟨walked, ends⟩ := terminates
  refine ⟨_, walked, fun fuel enough => (serves.walkDir_eq _ _ _ _).trans (walkLoop_le enough ends), ?_⟩
  have below : ∀ other ∈ [names], names <+: other := by simp
  have sights : sightsAt tree.root (verdictOf answer) names = node.sights (verdictOf answer) names := by
    simp only [sightsAt, found]
  obtain ⟨⟨s', seen⟩, result⟩ := walked
  obtain ⟨state, kind⟩ :=
    walkLoop_sights serves (recording_answersAs depends hash tree.root names) located below ends
  rw [List.flatMap_singleton, sights] at state kind
  obtain ⟨startState, startKind⟩ := walkDir_stored (recording cb) preOrder (if_pos oid) stored
    (walkStartPoint_names leads found isDir) (s, [])
  have entry : tree.root.find (names ++ []) = some node := by rwa [List.append_nil]
  obtain ⟨gitState, gitKind⟩ :=
    Node.walk_preorder leads (recording_answersAs depends tree.id tree.root names) entry (s, [])
  rw [List.append_nil] at gitState gitKind
  rw [goesOn_iff found listable]
  refine sameOutcome_iff ?_ ?_ ?_ ?_ tame isDir listable
  · have seen' := congrArg Prod.snd state
    rwa [offerEach_recording, List.nil_append] at seen'
  · exact kind
  · simp only [Outcome.of, startState, gitState, offerEach_recording, List.nil_append]
  · exact startKind.trans gitKind

end Outcome

/-! ### A walk that leaves out a directory, and a callback that fails at the only file -/

section Sample

theorem sampleFileName_plain : (['a'] : Str) ≠ [] ∧ '/' ∉ ['a'] ∧ (['a'] : Str) ≠ ['.'] ∧
    (['a'] : Str) ≠ ['.', '.'] := by
  decide

def sampleFileName : FileName := ⟨['a'], sampleFileName_plain⟩

def sampleTree : CommitTree where
  root := .dir none ⟨[sampleFileName], by decide⟩ fun _ => .file (.ok .empty)
  id _ := .empty

def sampleCommit : VersionItem := { name := [], id := ⟨Array.replicate 20 0⟩ }

def sampleGit : GitBackend := ⟨fun _ => .ok sampleTree, fun _ => .ok .empty, .documented⟩

/-- A tree below the directory of a version. -/
def mirrorBackend (tree : CommitTree) : StorageBackend :=
  (⟨['/']⟩ : FilesystemBackend).toStorageBackend
    { root := .dir none ⟨[⟨['v'], plain_v⟩], nodup_v⟩ fun _ => tree.root, cwd := [] }

def mirrorVersion : VersionItem := { name := ['v'], id := toUtf8 ['v'] }

theorem mirrorBackend_serves (tree : CommitTree) :
    ∃ hash, Serves (mirrorBackend tree) mirrorVersion tree.root hash :=
  ⟨_, FilesystemBackend.serves (fromUtf8_toUtf8 _) rfl⟩

/-- A callback that counts what it is called with. -/
def counting (answer : Path → Bool → Except WalkDirError WalkRetCtl) :
    Nat → DirItem → Nat × Rust WalkDirError WalkRetCtl :=
  fun calls item => (calls + 1, (answer item.absPath item.isDir).mapError .error)

theorem layeredNames_nodup : [(⟨['v'], plain_v⟩ : FileName), sampleFileName].Nodup := by decide

/-- Two directories, one in the other, and a file next to each and in the inner one. -/
def layeredTree : CommitTree where
  root := .dir none ⟨_, layeredNames_nodup⟩ fun outer =>
    if outer = sampleFileName then .file (.ok .empty)
    else .dir none ⟨_, layeredNames_nodup⟩ fun inner =>
      if inner = sampleFileName then .file (.ok .empty) else sampleTree.root
  id _ := .empty

def layeredGit : GitBackend := ⟨fun _ => .ok layeredTree, fun _ => .ok .empty, .documented⟩

def skipsInner : Path → Bool → Except WalkDirError WalkRetCtl := fun path _ =>
  if path = ['/', 'v', '/', 'v'] then .ok .skipCurrentNode else .ok .next

theorem skipsInner_eq (path : Path) (isDir : Bool) :
    skipsInner path isDir = .ok .next ∨ skipsInner path isDir = .ok .skipCurrentNode := by
  rw [skipsInner]
  split
  · exact .inr rfl
  · exact .inl rfl

theorem layeredTree_listable : layeredTree.root.Listable := by
  refine ⟨rfl, fun outer _ => ?_⟩
  dsimp only [layeredTree]
  split
  · trivial
  · refine ⟨rfl, fun inner _ => ?_⟩
    dsimp only
    split
    · trivial
    · exact ⟨rfl, fun _ _ => trivial⟩

theorem GitBackend.walkDir_same_iff_sample : ∃ walked, (∃ fuel,
      (mirrorBackend layeredTree).walkDir (recording (counting skipsInner)) fuel mirrorVersion ['/'] (0, []) =
        some walked) ∧
    SameOutcome skipsInner (.of walked)
      (.of (layeredGit.walkDir (recording (counting skipsInner)) sampleCommit ['/'] (0, []))) ∧
    (layeredGit.walkDir (recording (counting skipsInner)) sampleCommit ['/'] (0, [])).1 =
      (4, [(['/', 'v'], true), (['/', 'v', '/', 'v'], true), (['/', 'v', '/', 'a'], false),
        (['/', 'a'], false)]) := by
  obtain ⟨hash, serves⟩ := mirrorBackend_serves layeredTree
  have tame : Tame skipsInner :=
    .inl fun path isDir stops => by rcases skipsInner_eq path isDir with goes | goes <;> simp [goes] at stops
  obtain ⟨enough, walked, ends, same⟩ := GitBackend.walkDir_same_iff skipsInner tame
    (counting skipsInner) (fun _ _ => rfl) layeredGit TreeWalk.documented_preOrder sampleCommit rfl layeredTree rfl
    (mirrorBackend layeredTree) mirrorVersion hash serves [] layeredTree.root rfl rfl layeredTree_listable ['/']
    (.inl rfl) 0
  exact ⟨walked, ⟨enough, ends enough (Nat.le_refl _)⟩, same.mpr fun _ _ _ _ _ => skipsInner_eq _ _, rfl⟩

def rejects : Path → Bool → Except WalkDirError WalkRetCtl := fun _ _ =>
  .error (.dataLoaderError (.unmarshalError []))

/-- The git walk succeeds where the default walk returns the error of the callback. -/
theorem GitBackend.walkDir_drops_error : Tame rejects ∧ ∃ walked fuel,
    (mirrorBackend sampleTree).walkDir (recording (counting rejects)) fuel mirrorVersion ['/'] (0, []) =
      some walked ∧
    ¬ SameOutcome rejects (.of walked)
      (.of (sampleGit.walkDir (recording (counting rejects)) sampleCommit ['/'] (0, []))) := by
  refine ⟨.inl fun _ _ => by simp [rejects], _, 2, rfl, fun same => ?_⟩
  have gitSucceeds : (Outcome.of
      (sampleGit.walkDir (recording (counting rejects)) sampleCommit ['/'] (0, []))).result = .ok () := rfl
  cases same.result.mpr gitSucceeds

end Sample

end Eafcc.Storage
