import Eafcc.Storage.Git

namespace Eafcc.Storage

open Eafcc.Model

/-! # What a recorded walk has met -/

variable {σ : Type} {cb : σ → DirItem → σ × Rust WalkDirError WalkRetCtl}
  {list : Path → Except StorageBackendError (List DirItem)} {items : List DirItem} {stack : List Path}
  {s s' : σ} {seen nodes : List (Path × Bool)} {within : Path → Prop}

def DirItem.shown (item : DirItem) : Path × Bool := (item.absPath, item.isDir)

theorem recording_eq (cb : σ → DirItem → σ × Rust WalkDirError WalkRetCtl) (s : σ)
    (seen : List (Path × Bool)) (item : DirItem) :
    recording cb (s, seen) item = (((cb s item).1, seen ++ [item.shown]), (cb s item).2) := rfl

/-- The record changes nothing about a walk. -/
theorem visitNodes_recording_eq (items : List DirItem) (stack : List Path) (s : σ) (seen : List (Path × Bool)) :
    ((visitNodes (recording cb) items stack (s, seen)).1.1, (visitNodes (recording cb) items stack (s, seen)).2) =
      visitNodes cb items stack s := by
  induction items generalizing stack s seen with
  | nil => rfl
  | cons item items ih =>
      simp only [visitNodes, recording_eq]
      rcases cb s item with ⟨next, answer⟩
      cases answer with
      | error failure => cases failure <;> rfl
      | ok control =>
          cases control with
          | stopWalking => rfl
          | skipCurrentNode => exact ih stack next _
          | next =>
              cases item.isDir with
              | false => exact ih stack next _
              | true => exact ih _ next _

theorem walkLoop_recording_eq (fuel : Nat) (stack : List Path) (s : σ) (seen : List (Path × Bool)) :
    (walkLoop (recording cb) list fuel stack (s, seen)).map (fun walked => (walked.1.1, walked.2)) =
      walkLoop cb list fuel stack s := by
  induction fuel generalizing stack s seen with
  | zero => rfl
  | succ fuel ih =>
      cases stack with
      | nil => rfl
      | cons path stack =>
          unfold walkLoop
          cases list path with
          | error reason => rfl
          | ok items =>
              have same : _ = visitNodes cb items stack s := visitNodes_recording_eq items stack s seen
              dsimp only
              rw [← same]
              rcases visitNodes (recording cb) items stack (s, seen) with ⟨⟨next, seen'⟩, outcome⟩
              cases outcome with
              | done result => rfl
              | more rest => exact ih rest next seen'

/-- The nodes of a directory are met in turn, and the first one is always met. -/
theorem visitNodes_recording {visit : Visit}
    (visited : visitNodes (recording cb) items stack (s, seen) = ((s', nodes), visit)) :
    ∃ met, met <+: items ∧ nodes = seen ++ met.map DirItem.shown ∧ (items ≠ [] → met ≠ []) := by
  induction items generalizing stack s seen with
  | nil =>
      cases visited
      exact ⟨[], List.prefix_rfl, by simp, fun nonempty => absurd rfl nonempty⟩
  | cons item items ih =>
      have ends : nodes = seen ++ [item.shown] → ∃ met, met <+: item :: items ∧
          nodes = seen ++ met.map DirItem.shown ∧ (item :: items ≠ [] → met ≠ []) := by
        intro same
        exact ⟨[item], List.prefix_append [item] items, same, fun _ => by simp⟩
      have goes : ∀ {stack' : List Path} {next : σ}, visitNodes (recording cb) items stack'
          (next, seen ++ [item.shown]) = ((s', nodes), visit) → ∃ met, met <+: item :: items ∧
            nodes = seen ++ met.map DirItem.shown ∧ (item :: items ≠ [] → met ≠ []) := by
        intro stack' next visited
        obtain ⟨met, listed, same, -⟩ := ih visited
        exact ⟨item :: met, List.cons_prefix_cons.mpr ⟨rfl, listed⟩, by simp [same], fun _ => by simp⟩
      simp only [visitNodes, recording_eq] at visited
      rcases answered : cb s item with ⟨next, answer⟩
      rw [answered] at visited
      cases answer with
      | error failure =>
          cases failure with
          | error reason =>
              cases visited
              exact ends rfl
          | panic =>
              cases visited
              exact ends rfl
      | ok control =>
          cases control with
          | stopWalking =>
              cases visited
              exact ends rfl
          | skipCurrentNode => exact goes visited
          | next =>
              dsimp only at visited
              split at visited
              · exact goes visited
              · exact goes visited

/-- What holds of the paths that a walk starts from and of all that is listed below
such a path, holds of the paths of all nodes that it meets. -/
theorem walkLoop_recording (within : Path → Prop)
    (lists : ∀ path, within path → ∀ items, list path = .ok items → ∀ item ∈ items, within item.absPath)
    (starts : ∀ path ∈ stack, within path) {fuel : Nat} {result : Rust StorageBackendError Unit}
    (walked : walkLoop (recording cb) list fuel stack (s, seen) = some ((s', nodes), result)) :
    ∃ met, nodes = seen ++ met ∧ ∀ node ∈ met, within node.1 := by
  induction fuel generalizing stack s seen with
  | zero => cases walked
  | succ fuel ih =>
      cases stack with
      | nil =>
          cases walked
          exact ⟨[], by simp, by simp⟩
      | cons path stack =>
          obtain ⟨here, others⟩ := List.forall_mem_cons.mp starts
          unfold walkLoop at walked
          cases listed : list path with
          | error reason =>
              simp only [listed] at walked
              cases walked
              exact ⟨[], by simp, by simp⟩
          | ok items =>
              have inside := lists path here items listed
              rcases visited : visitNodes (recording cb) items stack (s, seen) with ⟨⟨next, seen'⟩, outcome⟩
              obtain ⟨met, offered, rfl, -⟩ := visitNodes_recording visited
              have metWithin : ∀ node ∈ met.map DirItem.shown, within node.1 := by
                intro node member
                obtain ⟨item, chosen, rfl⟩ := List.mem_map.mp member
                exact inside item (offered.mem chosen)
              simp only [listed, visited] at walked
              cases outcome with
              | done result =>
                  cases walked
                  exact ⟨_, rfl, metWithin⟩
              | more rest =>
                  obtain ⟨kept, sublist, rfl⟩ := visitNodes_more visited
                  have deeper : ∀ path ∈ (kept.map DirItem.absPath).reverse ++ stack, within path := by
                    intro path member
                    rcases List.mem_append.mp member with member | member
                    · obtain ⟨item, chosen, rfl⟩ := List.mem_map.mp (List.mem_reverse.mp member)
                      exact inside item (List.mem_of_mem_filter (sublist.mem chosen))
                    · exact others path member
                  obtain ⟨later, rfl, laterWithin⟩ := ih deeper walked
                  refine ⟨met.map DirItem.shown ++ later, by rw [List.append_assoc], fun node member => ?_⟩
                  rcases List.mem_append.mp member with member | member
                  · exact metWithin node member
                  · exact laterWithin node member

/-- The first node of the first directory is met whatever the callback answers. -/
theorem walkLoop_recording_first {path : Path} {item : DirItem} (listed : list path = .ok (item :: items))
    {fuel : Nat} {result : Rust StorageBackendError Unit}
    (walked : walkLoop (recording cb) list fuel (path :: stack) (s, seen) = some ((s', nodes), result)) :
    item.shown ∈ nodes := by
  cases fuel with
  | zero => cases walked
  | succ fuel =>
      unfold walkLoop at walked
      rcases visited : visitNodes (recording cb) (item :: items) stack (s, seen) with ⟨⟨next, seen'⟩, outcome⟩
      obtain ⟨met, offered, rfl, nonempty⟩ := visitNodes_recording visited
      have first : item.shown ∈ seen ++ met.map DirItem.shown := by
        obtain ⟨head, rest, rfl⟩ := List.exists_cons_of_ne_nil (nonempty (by simp))
        rw [(List.cons_prefix_cons.mp offered).1]
        simp
      simp only [listed, visited] at walked
      cases outcome with
      | done result =>
          cases walked
          exact first
      | more rest =>
          obtain ⟨later, rfl, -⟩ := walkLoop_recording (fun _ => True) (fun _ _ _ _ _ _ => trivial)
            (fun _ _ => trivial) walked
          exact List.mem_append_left _ first

/-! ## The git walk -/

section Git

variable {start path : Path} {node : Node} {below : List FileName} {id : List FileName → ObjectID}

theorem walkEntries_recording {visit : FileName → σ × List (Path × Bool) → (σ × List (Path × Bool)) × Rust Git2Error Unit}
    {listed : List FileName} (entry : FileName → Path × Bool)
    (visits : ∀ name ∈ listed, ∀ s seen, ∃ met, (visit name (s, seen)).1.2 = seen ++ entry name :: met ∧
      ∀ node ∈ entry name :: met, within node.1)
    (s : σ) (seen : List (Path × Bool)) :
    ∃ met, (walkEntries visit listed (s, seen)).1.2 = seen ++ met ∧ (∀ node ∈ met, within node.1) ∧
      ∀ name ∈ listed.head?, entry name ∈ met := by
  induction listed generalizing s seen with
  | nil => exact ⟨[], by simp [walkEntries], by simp, by simp⟩
  | cons name listed ih =>
      obtain ⟨met, grown, inside⟩ := visits name (by simp) s seen
      have rest := ih fun other member => visits other (List.mem_cons_of_mem name member)
      rcases visited : visit name (s, seen) with ⟨⟨next, seen'⟩, result⟩
      rw [visited] at grown
      dsimp only at grown
      subst grown
      cases result with
      | error failure => exact ⟨entry name :: met, by simp [walkEntries, visited], inside, by simp⟩
      | ok value =>
          obtain ⟨later, grown', inside', -⟩ := rest next (seen ++ entry name :: met)
          refine ⟨entry name :: met ++ later, by simp [walkEntries, visited, grown'], fun node member => ?_, by simp⟩
          rcases List.mem_append.mp member with member | member
          · exact inside node member
          · exact inside' node member

theorem visitEntry_recording (path : Path) (s : σ) (seen : List (Path × Bool)) (rootRelPath : Str)
    (name : FileName) (id : ObjectID) (kind : ObjectType) :
    (GitBackend.visitEntry (recording cb) path (s, seen) rootRelPath { name := some name.text, id, kind }).1.2 =
      seen ++ [(Path.join (Path.join path rootRelPath) name.text, kind == .tree)] := rfl

/-- An entry is met, and then what the walk below it meets. -/
theorem walked_entry_recording {visited : (σ × List (Path × Bool)) × Rust Empty Int}
    {deeper : σ × List (Path × Bool) → (σ × List (Path × Bool)) × Rust Git2Error Unit}
    {final : σ × List (Path × Bool)} {shown : Path × Bool} (met : visited.1.2 = seen ++ [shown])
    (either : final = visited.1 ∨ final = (deeper visited.1).1)
    (walks : ∀ s seen, ∃ met, (deeper (s, seen)).1.2 = seen ++ met ∧ ∀ node ∈ met, within node.1) :
    ∃ met, final.2 = seen ++ shown :: met ∧ ∀ node ∈ met, within node.1 := by
  rcases either with rfl | rfl
  · exact ⟨[], met, by simp⟩
  · obtain ⟨later, grown, inside⟩ := walks visited.1.1 visited.1.2
    exact ⟨later, by rw [grown, met, List.append_assoc]; rfl, inside⟩

/-- The node that a git walk from a path offers for an entry. -/
def entryShown (path : Path) (below : List FileName) (child : FileName → Node) (name : FileName) : Path × Bool :=
  (Path.join (Path.join path (below.flatMap fun name => name.text ++ ['/'])) name.text,
    (child name).objectType == .tree)

/-- What holds of the path that a git walk starts from and of what is joined to such
paths, holds of the paths of all nodes that it meets. The first entry of the directory is
met whatever the callback answers. -/
theorem Node.walk_recording (within : Path → Prop)
    (joins : ∀ path, within path → ∀ rel, Path.isAbsolute rel = false → within (Path.join path rel))
    (starts : within path) (s : σ) (seen : List (Path × Bool)) :
    ∃ met, (node.walk id (GitBackend.visitEntry (recording cb) path) below (s, seen)).1.2 = seen ++ met ∧
      (∀ node ∈ met, within node.1) ∧
      ∀ entries child, node = .dir none entries child → ∀ name ∈ entries.val.head?,
        entryShown path below child name ∈ met := by
  induction node generalizing below s seen with
  | file content => exact ⟨[], by simp [Node.walk], by simp, by simp⟩
  | dir failure entries child ih =>
      cases failure with
      | some cause => exact ⟨[], by simp [Node.walk], by simp, by simp⟩
      | none =>
          have visits : ∃ met, ((Node.dir none entries child).walk id (GitBackend.visitEntry (recording cb) path)
              below (s, seen)).1.2 = seen ++ met ∧ (∀ node ∈ met, within node.1) ∧
              ∀ name ∈ entries.val.head?, entryShown path below child name ∈ met := by
            rw [Node.walk]
            apply walkEntries_recording
            intro name _ s seen
            have inside : within (entryShown path below child name).1 :=
              joins _ (joins path starts _ (names_not_absolute below)) _ (fileName_not_absolute name)
            have deeper : ∀ s seen, ∃ met, ((child name).walk id (GitBackend.visitEntry (recording cb) path)
                (below ++ [name]) (s, seen)).1.2 = seen ++ met ∧ ∀ node ∈ met, within node.1 := by
              intro s seen
              obtain ⟨met, grown, inside, -⟩ := @ih name (below ++ [name]) s seen
              exact ⟨met, grown, inside⟩
            have offers := @visitEntry_recording _ cb path s seen
            obtain ⟨met, grown, insideMet⟩ := walked_entry_recording (offers _ name _ _) (walked_entry _ _) deeper
            exact ⟨met, grown, List.forall_mem_cons.mpr ⟨inside, insideMet⟩⟩
          obtain ⟨met, grown, inside, first⟩ := visits
          refine ⟨met, grown, inside, fun entries' child' same => ?_⟩
          cases same
          exact first

theorem Node.walk_recording_first {entries : Listing} {child : FileName → Node} {name : FileName}
    {rest : List FileName} (listed : entries.val = name :: rest) (s : σ) :
    entryShown path [] child name ∈
      ((Node.dir none entries child).walk id (GitBackend.visitEntry (recording cb) path) [] (s, [])).1.2 := by
  obtain ⟨met, grown, -, first⟩ := Node.walk_recording (fun _ => True) (fun _ _ _ _ => trivial) trivial s []
  rw [grown]
  exact first entries child rfl name (by simp [listed])

end Git

end Eafcc.Storage
