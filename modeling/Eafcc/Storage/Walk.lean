import Eafcc.Storage.Tree

namespace Eafcc.Storage

open Eafcc.Model

/-! # Walking a directory tree -/

/-! ## What the loop does -/

section Loop

variable {σ : Type} {cb : σ → DirItem → σ × Rust WalkDirError WalkRetCtl}
  {listDir : Path → Except StorageBackendError (List DirItem)} {nodes items : List DirItem}
  {stack stack' : List Path} {s s' : σ}

/-- The directories of a listing, the last one on top. -/
def pushed (nodes : List DirItem) : List Path :=
  ((nodes.filter fun node => node.isDir).map DirItem.absPath).reverse

theorem pushed_cons (node : DirItem) (nodes : List DirItem) :
    pushed (node :: nodes) = pushed nodes ++ if node.isDir then [node.absPath] else [] := by
  unfold pushed
  cases directory : node.isDir <;> simp [directory]

/-- The loop over one directory pushes some of its directories. -/
theorem visitNodes_more (visited : visitNodes cb nodes stack s = (s', .more stack')) :
    ∃ kept : List DirItem, kept.Sublist (nodes.filter fun node => node.isDir) ∧
      stack' = (kept.map DirItem.absPath).reverse ++ stack := by
  induction nodes generalizing stack s with
  | nil =>
      simp only [visitNodes, Prod.mk.injEq, Visit.more.injEq] at visited
      exact ⟨[], by simp, by simp [visited.2]⟩
  | cons node nodes ih =>
      have skipped : ∀ kept : List DirItem, kept.Sublist (nodes.filter fun node => node.isDir) →
          kept.Sublist ((node :: nodes).filter fun node => node.isDir) := by
        intro kept sublist
        exact sublist.trans ((List.sublist_cons_self node nodes).filter _)
      unfold visitNodes at visited
      split at visited
      · simp at visited
      · obtain ⟨kept, sublist, same⟩ := ih visited
        exact ⟨kept, skipped kept sublist, same⟩
      · split at visited
        · rename_i directory
          obtain ⟨kept, sublist, same⟩ := ih visited
          refine ⟨node :: kept, ?_, by simp [same]⟩
          rw [List.filter_cons_of_pos directory]
          exact sublist.cons_cons node
        · obtain ⟨kept, sublist, same⟩ := ih visited
          exact ⟨kept, skipped kept sublist, same⟩
      · simp at visited
      · simp at visited

theorem walkLoop_le {fuel more : Nat} {result : σ × Rust StorageBackendError Unit}
    (enough : fuel ≤ more) (walked : walkLoop cb listDir fuel stack s = some result) :
    walkLoop cb listDir more stack s = some result := by
  induction fuel generalizing more stack s with
  | zero => simp [walkLoop] at walked
  | succ fuel ih =>
      obtain ⟨more, rfl⟩ := Nat.exists_eq_add_of_le' (Nat.lt_of_lt_of_le (Nat.succ_pos fuel) enough)
      cases stack with
      | nil => exact walked
      | cons path stack =>
          unfold walkLoop at walked ⊢
          cases listed : listDir path with
          | error reason => simpa [listed] using walked
          | ok nodes =>
              simp only [listed] at walked ⊢
              split at walked
              · exact walked
              · exact ih (by omega) walked

theorem forall₂_sublist {α β : Type} {related : α → β → Prop} {first second : List α} {third : List β}
    (all : List.Forall₂ related second third) (sublist : first.Sublist second) :
    ∃ kept : List β, kept.Sublist third ∧ List.Forall₂ related first kept := by
  induction sublist generalizing third with
  | slnil => exact ⟨[], List.nil_sublist _, .nil⟩
  | cons item _ ih =>
      cases all with
      | cons _ others =>
          obtain ⟨kept, within, related⟩ := ih others
          exact ⟨kept, within.cons _, related⟩
  | cons_cons item _ ih =>
      cases all with
      | cons here others =>
          obtain ⟨kept, within, related⟩ := ih others
          exact ⟨_ :: kept, within.cons_cons _, .cons here related⟩

/-- A walk ends over directories that weigh more than all that they list. -/
theorem walkLoop_weighed {weighs : Path → Nat → Prop}
    (falls : ∀ path weight nodes, weighs path weight → listDir path = .ok nodes → ∃ weights : List Nat,
      List.Forall₂ (fun node weight => node.isDir = true → weighs node.absPath weight) nodes weights ∧
        weights.sum < weight)
    {weights : List Nat} (stacked : List.Forall₂ weighs stack weights) (s : σ) :
    ∀ fuel, weights.sum < fuel → ∃ result, walkLoop cb listDir fuel stack s = some result := by
  intro fuel
  induction fuel generalizing stack weights s with
  | zero => exact fun enough => absurd enough (Nat.not_lt_zero _)
  | succ fuel ih =>
      intro enough
      cases stacked with
      | nil => exact ⟨_, rfl⟩
      | @cons path weight stack weights here others =>
          unfold walkLoop
          cases listed : listDir path with
          | error reason => exact ⟨_, rfl⟩
          | ok nodes =>
              dsimp only
              split
              · exact ⟨_, rfl⟩
              · rename_i s' stack' visited
                obtain ⟨kept, sublist, rfl⟩ := visitNodes_more visited
                obtain ⟨each, all, lighter⟩ := falls path weight nodes here listed
                obtain ⟨chosen, within, related⟩ := forall₂_sublist all (sublist.trans List.filter_sublist)
                have fewer : chosen.sum ≤ each.sum := within.sum_le_sum fun _ _ => Nat.zero_le _
                have below : List.Forall₂ weighs (kept.map DirItem.absPath).reverse chosen.reverse := by
                  rw [List.forall₂_reverse_iff, List.forall₂_map_left_iff]
                  have dirs : ∀ node ∈ kept, node.isDir = true :=
                    fun node member => (List.mem_filter.mp (sublist.mem member)).2
                  exact ((List.forall₂_and_left _ _).mpr ⟨dirs, related⟩).imp fun _ _ both => both.2 both.1
                apply ih (List.rel_append below others) s'
                rw [List.sum_cons] at enough
                rw [List.sum_append, List.sum_reverse]
                omega

/-- The callback never prunes or stops the walk. -/
def NeverPrunes (cb : σ → DirItem → σ × Rust WalkDirError WalkRetCtl) : Prop :=
  ∀ s node s' control, cb s node = (s', .ok control) → control = .next

/-- The state after each node in turn was offered and the next one asked for. -/
def offerAll (cb : σ → DirItem → σ × Rust WalkDirError WalkRetCtl) : List DirItem → σ → Option σ
  | [], s => some s
  | node :: nodes, s =>
      match cb s node with
      | (s, .ok .next) => offerAll cb nodes s
      | _ => none

theorem offerAll_append (first second : List DirItem) (s : σ) :
    offerAll cb (first ++ second) s = (offerAll cb first s).bind (offerAll cb second) := by
  induction first generalizing s with
  | nil => rfl
  | cons node nodes ih =>
      simp only [List.cons_append, offerAll]
      split
      · exact ih _
      · rfl

theorem visitNodes_offered (never : NeverPrunes cb)
    (visited : visitNodes cb nodes stack s = (s', .more stack')) :
    offerAll cb nodes s = some s' ∧ stack' = pushed nodes ++ stack := by
  induction nodes generalizing stack s with
  | nil =>
      simp only [visitNodes, Prod.mk.injEq, Visit.more.injEq] at visited
      simp [offerAll, pushed, visited.1, visited.2]
  | cons node nodes ih =>
      unfold visitNodes at visited
      split at visited
      · simp at visited
      · rename_i skipped
        exact absurd (never _ _ _ _ skipped) (by decide)
      · rename_i asked
        simp only [offerAll, asked, pushed_cons]
        split at visited
        · rename_i directory
          obtain ⟨offered, same⟩ := ih visited
          exact ⟨offered, by simp [same, directory]⟩
        · rename_i plain
          obtain ⟨offered, same⟩ := ih visited
          exact ⟨offered, by simp [same, plain]⟩
      · simp at visited
      · simp at visited

theorem visitNodes_not_stopped (never : NeverPrunes cb) :
    visitNodes cb nodes stack s ≠ (s', .done (.ok ())) := by
  induction nodes generalizing stack s with
  | nil => simp [visitNodes]
  | cons node nodes ih =>
      unfold visitNodes
      split
      · rename_i stopped
        exact absurd (never _ _ _ _ stopped) (by decide)
      · exact ih
      · split <;> exact ih
      · simp [Rust.fail]
      · simp [Rust.panics]

/-- The nodes that a walk offers when nothing prunes or ends it. -/
inductive Walked (listDir : Path → Except StorageBackendError (List DirItem)) :
    List Path → List DirItem → Prop
  | nil : Walked listDir [] []
  | cons {path : Path} {stack : List Path} {nodes items : List DirItem} :
      listDir path = .ok nodes → Walked listDir (pushed nodes ++ stack) items →
      Walked listDir (path :: stack) (nodes ++ items)

theorem walked_of_walkLoop {fuel : Nat} (never : NeverPrunes cb)
    (walked : walkLoop cb listDir fuel stack s = some (s', .ok ())) :
    ∃ items, Walked listDir stack items ∧ offerAll cb items s = some s' := by
  induction fuel generalizing stack s with
  | zero => simp [walkLoop] at walked
  | succ fuel ih =>
      cases stack with
      | nil =>
          simp only [walkLoop, Option.some.injEq, Prod.mk.injEq, and_true] at walked
          exact ⟨[], .nil, by simp [offerAll, walked]⟩
      | cons path stack =>
          unfold walkLoop at walked
          cases listed : listDir path with
          | error reason => simp [listed, Rust.fail] at walked
          | ok nodes =>
              simp only [listed] at walked
              split at walked
              · rename_i result visited
                cases walked
                exact absurd visited (visitNodes_not_stopped never)
              · rename_i middle stack' visited
                obtain ⟨offered, rfl⟩ := visitNodes_offered never visited
                obtain ⟨items, rest, finished⟩ := ih walked
                refine ⟨nodes ++ items, .cons listed rest, ?_⟩
                rw [offerAll_append, offered]
                exact finished

end Loop

/-! ## Backends that serve a tree -/

variable {backend : StorageBackend} {version : VersionItem} {root : Node}
  {hash : List FileName → ObjectID} {names : List FileName}

/-- The nodes of a directory. -/
def dirItems (hash : List FileName → ObjectID) (names : List FileName) (entries : Listing)
    (child : FileName → Node) : List DirItem :=
  entries.val.map fun name =>
    { absPath := filePath (names ++ [name]), isDir := (child name).isDir, hash := hash (names ++ [name]) }

/-- The backend serves a tree at a version: it uses the default walk, lists the directories
that can be listed and no others, and hands out the contents of the files that can be read
and of no others. -/
structure Serves (backend : StorageBackend) (version : VersionItem) (root : Node)
    (hash : List FileName → ObjectID) : Prop where
  walks : backend.WalksByDefault
  lists : ∀ path names items, Leads path names →
    (backend.listDir version path = .ok items ↔
      ∃ entries child, root.find names = some (.dir none entries child) ∧
        items = dirItems hash names entries child)
  reads : ∀ names content bytes, names ≠ [] → root.find names = some (.file content) →
    (backend.getObjByHash (hash names) = .ok bytes ↔ content = .ok bytes)

theorem Serves.walkDir_eq (serves : Serves backend version root hash) {σ : Type}
    {cb : σ → DirItem → σ × Rust WalkDirError WalkRetCtl} (fuel : Nat) (version' : VersionItem) (path : Path) (s : σ) :
    backend.walkDir cb fuel version' path s = walkLoop cb (backend.listDir version') fuel [path] s :=
  serves.walks σ cb fuel version' path s

def filesAt (root : Node) (names : List FileName) : List (List FileName × Except IOError Bytes) :=
  ((root.find names).map Node.files).getD []

theorem mem_filesAt {content : Except IOError Bytes} (found : ∃ node, root.find names = some node)
    (path : List FileName) :
    (path, content) ∈ filesAt root names ↔ root.find (names ++ path) = some (.file content) := by
  obtain ⟨node, found⟩ := found
  simp only [filesAt, found, Option.map_some, Option.getD_some, Node.find_append, Option.bind_some]
  exact Node.mem_files

def dirsAt (root : Node) (names : List FileName) : Nat :=
  ((root.find names).map Node.dirCount).getD 0

/-- The node of a file at and below a directory. -/
def fileItem (hash : List FileName → ObjectID) (names : List FileName) : DirItem :=
  { absPath := filePath names, isDir := false, hash := hash names }

def fileItems (root : Node) (hash : List FileName → ObjectID) (names : List FileName) : List DirItem :=
  (filesAt root names).map fun (path, _) => fileItem hash (names ++ path)

section Directory

variable {entries : Listing} {child : FileName → Node} {failure : Option IOError}

theorem find_child (found : root.find names = some (.dir failure entries child)) {name : FileName}
    (listed : name ∈ entries.val) : root.find (names ++ [name]) = some (child name) := by
  rw [Node.find_append, found]
  simp [Node.find, listed]

/-- The directories below one, as the walk pushes them. -/
def subdirectories (names : List FileName) (entries : Listing) (child : FileName → Node) :
    List (List FileName) :=
  ((entries.val.filter fun name => (child name).isDir).map fun name => names ++ [name]).reverse

theorem filter_dirItems : (dirItems hash names entries child).filter (fun node => node.isDir) =
    (entries.val.filter fun name => (child name).isDir).map fun name =>
      { absPath := filePath (names ++ [name]), isDir := (child name).isDir,
        hash := hash (names ++ [name]) } := by
  rw [dirItems, List.filter_map]
  rfl

theorem pushed_dirItems : pushed (dirItems hash names entries child) =
    (subdirectories names entries child).map filePath := by
  rw [pushed, filter_dirItems]
  simp [subdirectories]

theorem fileItems_dir (found : root.find names = some (.dir failure entries child)) :
    fileItems root hash names =
      entries.val.flatMap fun name => fileItems root hash (names ++ [name]) := by
  simp only [fileItems, filesAt, found, Option.map_some, Option.getD_some, Node.files,
    List.map_flatMap, List.map_map]
  apply List.flatMap_congr
  intro name listed
  simp [find_child found listed, fileItem]

theorem fileItems_file {content : Except IOError Bytes} (found : root.find names = some (.file content)) :
    fileItems root hash names = [fileItem hash names] := by
  simp [fileItems, filesAt, found, Node.files]

/-- The files below a directory are its own files and those of its
directories. -/
theorem fileItems_perm (hash : List FileName → ObjectID)
    (found : root.find names = some (.dir failure entries child)) :
    (fileItems root hash names).Perm
      ((dirItems hash names entries child).filter (fun node => !node.isDir) ++
        (subdirectories names entries child).flatMap (fileItems root hash)) := by
  have plain : (entries.val.filter fun name => !(child name).isDir).flatMap
        (fun name => fileItems root hash (names ++ [name])) =
      (dirItems hash names entries child).filter (fun node => !node.isDir) := by
    rw [dirItems, List.filter_map, List.map_eq_flatMap]
    apply List.flatMap_congr
    intro name member
    obtain ⟨listed, isFile⟩ := List.mem_filter.mp member
    have located := find_child found listed
    cases node : child name with
    | file content =>
        rw [node] at located
        simp [fileItems_file located, fileItem, Node.isDir]
    | dir failure entries child => simp [node, Node.isDir] at isFile
  have deeper : ((subdirectories names entries child).flatMap (fileItems root hash)).Perm
      ((entries.val.filter fun name => (child name).isDir).flatMap
        fun name => fileItems root hash (names ++ [name])) := by
    have reversed := (List.reverse_perm
      ((entries.val.filter fun name => (child name).isDir).map fun name => names ++ [name])).flatMap_right
        (fileItems root hash)
    rwa [List.flatMap_map] at reversed
  have parted := List.filter_append_perm (fun name => !(child name).isDir) entries.val
  rw [fileItems_dir found, ← plain]
  refine (parted.flatMap_right _).symm.trans ?_
  rw [List.flatMap_append]
  simp only [Bool.not_not]
  exact deeper.symm.append_left _

theorem dirsAt_dir (found : root.find names = some (.dir failure entries child)) :
    dirsAt root names =
      1 + (entries.val.map fun name => dirsAt root (names ++ [name])).sum := by
  simp only [dirsAt, found, Option.map_some, Option.getD_some, Node.dirCount]
  congr 2
  apply List.map_congr_left
  intro name listed
  simp [find_child found listed]

end Directory

theorem leads_subdirectories {names : List FileName} {entries : Listing} {child : FileName → Node} :
    List.Forall₂ Leads ((subdirectories names entries child).map filePath)
      (subdirectories names entries child) := by
  rw [List.forall₂_map_left_iff]
  refine List.forall₂_same.mpr fun names' member => leads_filePath ?_
  simp only [subdirectories, List.mem_reverse, List.mem_map] at member
  obtain ⟨name, -, rfl⟩ := member
  simp

/-- A walk that offers all nodes has listed every directory and offered every
file once. -/
theorem walked_files (serves : Serves backend version root hash) {stack : List Path}
    {located : List (List FileName)} {items : List DirItem}
    (walked : Walked (backend.listDir version) stack items)
    (leads : List.Forall₂ Leads stack located) :
    (∀ names ∈ located, ∃ node, root.find names = some node ∧ node.isDir = true ∧ node.Listable) ∧
    (items.filter fun node => !node.isDir).Perm (located.flatMap (fileItems root hash)) := by
  induction walked generalizing located with
  | nil =>
      cases leads
      simp
  | @cons path stack nodes items listed rest ih =>
      cases leads with
      | @cons _ names _ located leads others =>
          obtain ⟨entries, child, found, rfl⟩ := (serves.lists path names nodes leads).mp listed
          rw [pushed_dirItems] at ih
          obtain ⟨listable, files⟩ := ih (List.rel_append leads_subdirectories others)
          constructor
          · intro names' member
            rcases List.mem_cons.mp member with rfl | member
            · refine ⟨_, found, rfl, rfl, fun name entry => ?_⟩
              cases node : child name with
              | file content => trivial
              | dir failure entries' child' =>
                  have directory : names' ++ [name] ∈ subdirectories names' entries child := by
                    simp only [subdirectories, List.mem_reverse, List.mem_map, List.mem_filter]
                    exact ⟨name, ⟨entry, by simp [node, Node.isDir]⟩, rfl⟩
                  obtain ⟨node', found', -, below⟩ := listable _ (List.mem_append_left _ directory)
                  rw [find_child found entry, node] at found'
                  cases found'
                  exact below
            · exact listable names' (List.mem_append_right _ member)
          · rw [List.filter_append, List.flatMap_cons]
            rw [List.flatMap_append] at files
            have here := fileItems_perm hash found
            refine (files.append_left _).trans ?_
            rw [← List.append_assoc]
            exact here.symm.append_right _

section Termination

variable {σ : Type} {cb : σ → DirItem → σ × Rust WalkDirError WalkRetCtl}

/-- The walk over a tree ends after as many turns as it has directories. -/
theorem walkLoop_terminates (serves : Serves backend version root hash) {stack : List Path}
    {located : List (List FileName)} (leads : List.Forall₂ Leads stack located) (s : σ) :
    ∀ fuel, (located.map (dirsAt root)).sum < fuel →
      ∃ result, walkLoop cb (backend.listDir version) fuel stack s = some result := by
  let weighs (path : Path) (weight : Nat) : Prop := ∃ names, Leads path names ∧ weight = dirsAt root names
  have falls : ∀ path weight nodes, weighs path weight → backend.listDir version path = .ok nodes →
      ∃ weights : List Nat,
        List.Forall₂ (fun node weight => node.isDir = true → weighs node.absPath weight) nodes weights ∧
        weights.sum < weight := by
    intro path weight nodes here listed
    obtain ⟨names, leads, rfl⟩ := here
    obtain ⟨entries, child, found, rfl⟩ := (serves.lists path names nodes leads).mp listed
    refine ⟨entries.val.map fun name => dirsAt root (names ++ [name]), ?_, ?_⟩
    · rw [dirItems, List.forall₂_map_left_iff, List.forall₂_map_right_iff]
      exact List.forall₂_same.mpr fun name _ _ => ⟨_, leads_filePath (by simp), rfl⟩
    · rw [dirsAt_dir found]
      omega
  have stacked : List.Forall₂ weighs stack (located.map (dirsAt root)) := by
    rw [List.forall₂_map_right_iff]
    exact leads.imp fun path names here => ⟨names, here, rfl⟩
  exact walkLoop_weighed falls stacked s

theorem visitNodes_succeeds {nodes : List DirItem} (stack : List Path)
    (accepts : ∀ s, ∀ node ∈ nodes, ∃ s', cb s node = (s', .ok .next)) (s : σ) :
    ∃ s', visitNodes cb nodes stack s = (s', .more (pushed nodes ++ stack)) := by
  induction nodes generalizing stack s with
  | nil => exact ⟨s, rfl⟩
  | cons node nodes ih =>
      obtain ⟨next, asked⟩ := accepts s node (by simp)
      have rest : ∀ s, ∀ node ∈ nodes, ∃ s', cb s node = (s', .ok .next) :=
        fun s node member => accepts s node (by simp [member])
      simp only [visitNodes, asked, pushed_cons]
      cases node.isDir with
      | true =>
          obtain ⟨s', visited⟩ := @ih (node.absPath :: stack) rest next
          exact ⟨s', by simpa using visited⟩
      | false =>
          obtain ⟨s', visited⟩ := @ih stack rest next
          exact ⟨s', by simpa using visited⟩

/-- A walk over directories that can be listed with a callback that accepts
their files succeeds. -/
theorem walkLoop_succeeds (serves : Serves backend version root hash) {stack : List Path}
    {located : List (List FileName)} (leads : List.Forall₂ Leads stack located)
    (listable : ∀ names ∈ located,
      ∃ node, root.find names = some node ∧ node.isDir = true ∧ node.Listable)
    (directories : ∀ s (node : DirItem), node.isDir = true → ∃ s', cb s node = (s', .ok .next))
    (files : ∀ names ∈ located, ∀ path content, root.find (names ++ path) = some (.file content) →
      ∀ s, ∃ s', cb s (fileItem hash (names ++ path)) = (s', .ok .next))
    {fuel : Nat} {s s' : σ} {result : Rust StorageBackendError Unit}
    (walked : walkLoop cb (backend.listDir version) fuel stack s = some (s', result)) :
    result = .ok () := by
  induction fuel generalizing stack located s with
  | zero => simp [walkLoop] at walked
  | succ fuel ih =>
      cases leads with
      | nil =>
          simp only [walkLoop, Option.some.injEq, Prod.mk.injEq] at walked
          exact walked.2.symm
      | @cons path names stack located leads others =>
          obtain ⟨node, found, isDir, below⟩ := listable names (by simp)
          cases node with
          | file content => simp [Node.isDir] at isDir
          | dir failure entries child =>
              obtain ⟨rfl, children⟩ := below
              have listed := (serves.lists path names _ leads).mpr ⟨entries, child, found, rfl⟩
              have accepts : ∀ s, ∀ node ∈ dirItems hash names entries child,
                  ∃ s', cb s node = (s', .ok .next) := by
                intro s node member
                obtain ⟨name, entry, rfl⟩ := List.mem_map.mp member
                cases kind : child name with
                | file content =>
                    have located := find_child found entry
                    rw [kind] at located
                    simpa [fileItem, Node.isDir] using files names (by simp) [name] content located s
                | dir failure' entries' child' => exact directories s _ (by simp [Node.isDir])
              obtain ⟨next, visited⟩ := visitNodes_succeeds stack accepts s
              simp only [walkLoop, listed, visited, pushed_dirItems] at walked
              refine ih (List.rel_append leads_subdirectories others) ?_ ?_ walked
              · intro names' member
                rcases List.mem_append.mp member with member | member
                · simp only [subdirectories, List.mem_reverse, List.mem_map, List.mem_filter] at member
                  obtain ⟨name, ⟨entry, directory⟩, rfl⟩ := member
                  exact ⟨child name, find_child found entry, directory, children name entry⟩
                · exact listable names' (by simp [member])
              · intro names' member path content located
                rcases List.mem_append.mp member with member | member
                · simp only [subdirectories, List.mem_reverse, List.mem_map, List.mem_filter] at member
                  obtain ⟨name, -, rfl⟩ := member
                  rw [List.append_assoc] at located ⊢
                  exact files names (by simp) _ content located
                · exact files names' (by simp [member]) path content located

end Termination

end Eafcc.Storage
