import Eafcc.Storage.Versioned

namespace Eafcc.Storage

open Eafcc.Model

/-! # Walks that go alike -/

/-! ## Two walks step by step -/

section Walks

variable {σ : Type} {cb cb' : σ → DirItem → σ × Rust WalkDirError WalkRetCtl}
  {list list' : Path → Except StorageBackendError (List DirItem)} {related : Path → Path → Prop}

/-- Two nodes that the callbacks answer alike, with related paths if they are directories. -/
structure Alike (related : Path → Path → Prop) (cb cb' : σ → DirItem → σ × Rust WalkDirError WalkRetCtl)
    (item item' : DirItem) : Prop where
  isDir : item.isDir = item'.isDir
  answers : ∀ s, cb s item = cb' s item'
  paths : item.isDir = true → related item.absPath item'.absPath

inductive ListsAlike (alike : DirItem → DirItem → Prop) :
    Except StorageBackendError (List DirItem) → Except StorageBackendError (List DirItem) → Prop
  | error {reason : StorageBackendError} : ListsAlike alike (.error reason) (.error reason)
  | ok {items items' : List DirItem} : List.Forall₂ alike items items' → ListsAlike alike (.ok items) (.ok items')

theorem visitNodes_simulates {nodes nodes' : List DirItem} (alike : List.Forall₂ (Alike related cb cb') nodes nodes')
    {stack stack' : List Path} (stacked : List.Forall₂ related stack stack') (s : σ) :
    (∃ s' result, visitNodes cb nodes stack s = (s', .done result) ∧
      visitNodes cb' nodes' stack' s = (s', .done result)) ∨
    ∃ s' rest rest', visitNodes cb nodes stack s = (s', .more rest) ∧
      visitNodes cb' nodes' stack' s = (s', .more rest') ∧ List.Forall₂ related rest rest' := by
  induction alike generalizing stack stack' s with
  | nil => exact .inr ⟨s, stack, stack', rfl, rfl, stacked⟩
  | @cons node node' nodes nodes' here _ ih =>
      have same := here.answers s
      simp only [visitNodes, ← same]
      rcases cb s node with ⟨next, answer⟩
      cases answer with
      | error failure =>
          cases failure with
          | error reason => exact .inl ⟨next, _, rfl, rfl⟩
          | panic => exact .inl ⟨next, _, rfl, rfl⟩
      | ok control =>
          cases control with
          | stopWalking => exact .inl ⟨next, .ok (), rfl, rfl⟩
          | skipCurrentNode => exact ih stacked next
          | next =>
              cases isDir : node.isDir with
              | false =>
                  rw [here.isDir] at isDir
                  simpa [isDir] using ih stacked next
              | true =>
                  have paths := here.paths isDir
                  rw [here.isDir] at isDir
                  simpa [isDir] using ih (.cons paths stacked) next

/-- Walks whose listings are alike have the same result. -/
theorem walkLoop_simulates
    (lists : ∀ path path', related path path' → ListsAlike (Alike related cb cb') (list path) (list' path'))
    {stack stack' : List Path} (stacked : List.Forall₂ related stack stack') (fuel : Nat) (s : σ) :
    walkLoop cb list fuel stack s = walkLoop cb' list' fuel stack' s := by
  induction fuel generalizing stack stack' s with
  | zero => rfl
  | succ fuel ih =>
      cases stacked with
      | nil => rfl
      | @cons path path' stack stack' here others =>
          unfold walkLoop
          have listed := lists path path' here
          generalize list path = nodes at listed
          generalize list' path' = nodes' at listed
          cases listed with
          | error => rfl
          | ok alike =>
              dsimp only
              rcases visitNodes_simulates alike others s with ⟨s', result, first, second⟩ | ⟨s', rest, rest', first, second, stacked⟩
              · rw [first, second]
              · rw [first, second]
                exact ih stacked s'

end Walks

/-! ## Trees that are listed alike -/

/-- The nodes hold the same in the same order. -/
def Node.SameListing : Node → Node → Prop
  | .file content, .file content' => content = content'
  | .dir failure entries child, .dir failure' entries' child' =>
      failure = failure' ∧ entries = entries' ∧ ∀ name ∈ entries.val, (child name).SameListing (child' name)
  | _, _ => False

theorem Node.SameListing.refl (node : Node) : node.SameListing node := by
  induction node with
  | file content => rfl
  | dir failure entries child ih => exact ⟨rfl, rfl, fun name _ => ih name⟩

theorem Node.SameListing.isDir {node node' : Node} (same : node.SameListing node') : node.isDir = node'.isDir := by
  cases node <;> cases node' <;> first | rfl | exact same.elim

/-- The path of a node below a base. -/
def below (base : Path) (names : List FileName) : Path := Path.join base (relativePath names)

theorem join_below {base : Path} (nonempty : base ≠ []) (names : List FileName) (name : FileName) :
    Path.join (below base names) name.text = below base (names ++ [name]) :=
  FilesystemBackend.join_name nonempty names name

theorem isAbsolute_below {base : Path} (absolute : Path.isAbsolute base = true) (names : List FileName) :
    Path.isAbsolute (below base names) = true := by
  cases base with
  | nil => cases absolute
  | cons c text =>
      have started : c = '/' := by simpa [Path.isAbsolute] using absolute
      subst started
      rw [below, FileSystem.join_relative (by simp) (FileSystem.relativePath_not_absolute names),
        FileSystem.withSeparator]
      split <;> rfl

section Filesystem

open FilesystemBackend

variable {σ : Type} {cb cb' : σ → DirItem → σ × Rust WalkDirError WalkRetCtl}
  {fs fs' : FileSystem} {backend backend' : FilesystemBackend} {version version' : VersionItem}
  {path path' : Path} {node node' : Node}

/-- The paths have the same names below the two bases, and the nodes there hold the same. `reach`
and `reach'` tell the node of a path. -/
def LeadAlike (reach reach' : Path → Except StorageBackendError Node) (path path' : Path) (node : Node)
    (first second : Path) : Prop :=
  ∃ names reached reached', first = below path names ∧ second = below path' names ∧
    node.find names = some reached ∧ reached.SameListing reached' ∧ reach first = .ok reached ∧
    reach' second = .ok reached'

section Answers

variable (absolute : Path.isAbsolute path = true) (absolute' : Path.isAbsolute path' = true)
  (answers : ∀ names, names ≠ [] → ∀ reached reached' : Node, node.find names = some reached →
    reached.SameListing reached' → ∀ hash hash',
      (∀ content, reached = .file content → FilesystemBackend.getObjByHash fs hash =
        FilesystemBackend.readContent content) →
      (∀ content, reached' = .file content → FilesystemBackend.getObjByHash fs' hash' =
        FilesystemBackend.readContent content) →
      ∀ s, cb s { absPath := below path names, isDir := reached.isDir, hash } =
        cb' s { absPath := below path' names, isDir := reached'.isDir, hash := hash' })

include absolute absolute' answers

theorem listDir_alike {first second : Path}
    (lead : LeadAlike (backend.nodeAt fs version) (backend'.nodeAt fs' version') path path' node first second) :
    ListsAlike
      (Alike (LeadAlike (backend.nodeAt fs version) (backend'.nodeAt fs' version') path path' node) cb cb')
      (backend.listDir fs version first) (backend'.listDir fs' version' second) := by
  have nonempty : path ≠ [] := by
    intro empty
    subst empty
    cases absolute
  have nonempty' : path' ≠ [] := by
    intro empty
    subst empty
    cases absolute'
  obtain ⟨names, reached, reached', rfl, rfl, located, alike, here, here'⟩ := lead
  cases reached with
  | file content =>
      cases reached' with
      | file content' =>
          rw [listDir_file here, listDir_file here']
          exact .error
      | dir failure' entries' child' => exact alike.elim
  | dir failure entries child =>
      cases reached' with
      | file content' => exact alike.elim
      | dir failure' entries' child' =>
          obtain ⟨rfl, rfl, children⟩ := alike
          cases failure with
          | some cause =>
              rw [listDir_failure here, listDir_failure here']
              exact .error
          | none =>
              obtain ⟨hash, listed, reads⟩ := listDir_dir here
              obtain ⟨hash', listed', reads'⟩ := listDir_dir here'
              rw [listed, listed']
              refine .ok ?_
              rw [itemsAt, itemsAt, List.forall₂_map_left_iff, List.forall₂_map_right_iff]
              refine List.forall₂_same.mpr fun name member => ?_
              have deeper : node.find (names ++ [name]) = some (child name) := find_child located member
              exact
                { isDir := (children name member).isDir
                  answers := by
                    intro s
                    rw [join_below nonempty, join_below nonempty']
                    exact answers (names ++ [name]) (by simp) _ _ deeper (children name member) _ _
                      (reads name member) (reads' name member) s
                  paths := by
                    intro isDir
                    refine ⟨names ++ [name], child name, child' name, ?_, ?_, deeper, children name member, ?_, ?_⟩
                    · exact join_below nonempty names name
                    · exact join_below nonempty' names name
                    · exact nodeAt_join (isAbsolute_below absolute names) here member
                    · exact nodeAt_join (isAbsolute_below absolute' names) here' member }

/-- Two walks over trees that are listed alike have the same result, if the callbacks
answer alike at nodes of the same content. -/
theorem walkDir_alike (found : backend.nodeAt fs version (below path []) = .ok node)
    (found' : backend'.nodeAt fs' version' (below path' []) = .ok node') (same : node.SameListing node')
    (fuel : Nat) (s : σ) :
    walkLoop cb (backend.listDir fs version) fuel [below path []] s =
      walkLoop cb' (backend'.listDir fs' version') fuel [below path' []] s := by
  have start : LeadAlike (backend.nodeAt fs version) (backend'.nodeAt fs' version') path path' node
      (below path []) (below path' []) :=
    ⟨[], node, node', rfl, rfl, by simp [Node.find], same, found, found'⟩
  exact walkLoop_simulates (fun _ _ => listDir_alike absolute absolute' answers) (.cons start .nil) fuel s

end Answers

end Filesystem

end Eafcc.Storage
