import Eafcc.Storage.Walk

namespace Eafcc.Storage

open Eafcc.Model

/-! # The order in which a walk comes across a tree -/

/-- What a walk meets: a node that it offers, or a place that it cannot list. -/
inductive Sight where
  | node (names : List FileName) (node : Node)
  | unlistable (names : List FileName)

/-- How a callback answers at a node of a tree, apart from the text of an error. -/
abbrev Verdict := List FileName → Node → Rust Unit WalkRetCtl

def Verdict.descends (verdict : Verdict) (names : List FileName) (node : Node) : Bool :=
  node.isDir && verdict names node matches .ok .next

theorem Verdict.descends_iff {verdict : Verdict} {names : List FileName} {node : Node} :
    verdict.descends names node = true ↔ node.isDir = true ∧ verdict names node = .ok .next := by
  unfold Verdict.descends
  rw [Bool.and_eq_true, and_congr_right_iff]
  intro _
  split <;> simp_all

/-- A walk with a stack offers all nodes of a directory before it goes into the
last one of its directories. -/
def Node.sights (verdict : Verdict) : Node → List FileName → List Sight
  | .file _, names => [.unlistable names]
  | .dir (some _) _ _, names => [.unlistable names]
  | .dir none entries child, names =>
      (entries.val.map fun name => .node (names ++ [name]) (child name)) ++
        (entries.val.filter fun name => verdict.descends (names ++ [name]) (child name)).reverse.flatMap
          fun name => (child name).sights verdict (names ++ [name])

/-- The place where a walk ends early, and its result. -/
def ending (verdict : Verdict) : List Sight → Option (Rust Unit Unit)
  | [] => none
  | .unlistable _ :: _ => some (Rust.fail ())
  | .node names node :: rest =>
      match verdict names node with
      | .ok .stopWalking => some (.ok ())
      | .ok _ => ending verdict rest
      | .error failure => some (.error failure)

/-- The nodes that are offered up to that place. -/
def offered (verdict : Verdict) : List Sight → List (List FileName × Node)
  | [] => []
  | .unlistable _ :: _ => []
  | .node names node :: rest =>
      (names, node) ::
        match verdict names node with
        | .ok .stopWalking => []
        | .ok _ => offered verdict rest
        | .error _ => []

variable {verdict : Verdict}

theorem ending_append (first second : List Sight) :
    ending verdict (first ++ second) = (ending verdict first).or (ending verdict second) := by
  induction first with
  | nil => rfl
  | cons sight first ih =>
      cases sight with
      | unlistable names => rfl
      | node names node =>
          simp only [List.cons_append, ending]
          split
          · rfl
          · exact ih
          · rfl

theorem offered_append (first second : List Sight) (goesOn : ending verdict first = none) :
    offered verdict (first ++ second) = offered verdict first ++ offered verdict second := by
  induction first with
  | nil => rfl
  | cons sight first ih =>
      cases sight with
      | unlistable names => cases goesOn
      | node names node =>
          simp only [ending] at goesOn
          simp only [List.cons_append, offered]
          split at goesOn
          · cases goesOn
          · simp [ih goesOn]
          · cases goesOn

theorem offered_append_of_ending {first : List Sight} {result : Rust Unit Unit}
    (ends : ending verdict first = some result) (second : List Sight) :
    offered verdict (first ++ second) = offered verdict first := by
  induction first with
  | nil => cases ends
  | cons sight first ih =>
      cases sight with
      | unlistable names => rfl
      | node names node =>
          simp only [ending] at ends
          simp only [List.cons_append, offered]
          split at ends
          · rfl
          · simp [ih ends]
          · rfl

/-- The walk goes on after the sight. -/
def Passes (verdict : Verdict) : Sight → Prop
  | .node names node => verdict names node = .ok .next ∨ verdict names node = .ok .skipCurrentNode
  | .unlistable _ => False

theorem ending_cons_node (verdict : Verdict) (names : List FileName) (node : Node) (rest : List Sight) :
    (Passes verdict (.node names node) ∧ ending verdict (.node names node :: rest) = ending verdict rest) ∨
    (¬ Passes verdict (.node names node) ∧
      ∃ result, ending verdict (.node names node :: rest) = some result) := by
  match answer : verdict names node with
  | .ok .next => exact .inl ⟨.inl answer, by simp [ending, answer]⟩
  | .ok .skipCurrentNode => exact .inl ⟨.inr answer, by simp [ending, answer]⟩
  | .ok .stopWalking => exact .inr ⟨by simp [Passes, answer], .ok (), by simp [ending, answer]⟩
  | .error failure => exact .inr ⟨by simp [Passes, answer], .error failure, by simp [ending, answer]⟩

theorem ending_eq_none {sights : List Sight} :
    ending verdict sights = none ↔ ∀ sight ∈ sights, Passes verdict sight := by
  induction sights with
  | nil => simp [ending]
  | cons sight rest ih =>
      rw [List.forall_mem_cons, ← ih]
      cases sight with
      | unlistable names => simp [ending, Passes]
      | node names node =>
          rcases ending_cons_node verdict names node rest with ⟨passes, same⟩ | ⟨ends, result, same⟩
          · simp [passes, same]
          · simp [ends, same]

/-- The node as a backend lists it. -/
def itemOf (hash : List FileName → ObjectID) (names : List FileName) (node : Node) : DirItem :=
  { absPath := filePath names, isDir := node.isDir, hash := hash names }

def sightsAt (root : Node) (verdict : Verdict) (names : List FileName) : List Sight :=
  match root.find names with
  | some node => node.sights verdict names
  | none => [.unlistable names]

variable {σ : Type} {cb : σ → DirItem → σ × Rust WalkDirError WalkRetCtl} {backend : StorageBackend}
  {version : VersionItem} {root : Node} {hash : List FileName → ObjectID} {top names : List FileName}

/-- The callback answers as the verdict at all nodes below a directory. -/
def AnswersAs (cb : σ → DirItem → σ × Rust WalkDirError WalkRetCtl) (hash : List FileName → ObjectID)
    (root : Node) (top : List FileName) (verdict : Verdict) : Prop :=
  ∀ s path node, path ≠ [] → root.find (top ++ path) = some node →
    Rust.kind (cb s (itemOf hash (top ++ path) node)).2 = verdict (top ++ path) node

/-- The state after some nodes were offered. -/
def offerEach (cb : σ → DirItem → σ × Rust WalkDirError WalkRetCtl) (hash : List FileName → ObjectID)
    (nodes : List (List FileName × Node)) (s : σ) : σ :=
  nodes.foldl (fun s node => (cb s (itemOf hash node.1 node.2)).1) s

theorem visitNodes_sights {child : FileName → Node} {listed : List FileName}
    (agrees : ∀ s, ∀ name ∈ listed, Rust.kind (cb s (itemOf hash (names ++ [name]) (child name))).2 =
      verdict (names ++ [name]) (child name))
    {stack : List Path} {s s' : σ} {visit : Visit}
    (visited : visitNodes cb (listed.map fun name => itemOf hash (names ++ [name]) (child name)) stack s =
      (s', visit)) :
    s' = offerEach cb hash
      (offered verdict (listed.map fun name => .node (names ++ [name]) (child name))) s ∧
    match ending verdict (listed.map fun name => .node (names ++ [name]) (child name)) with
    | some result => ∃ returned, visit = .done returned ∧ Rust.kind returned = result
    | none => visit = .more
        (((listed.filter fun name => verdict.descends (names ++ [name]) (child name)).reverse.map
          fun name => filePath (names ++ [name])) ++ stack) := by
  induction listed generalizing stack s with
  | nil =>
      simp only [List.map_nil, visitNodes, Prod.mk.injEq] at visited
      simp [offerEach, offered, ending, ← visited.1, ← visited.2]
  | cons name listed ih =>
      have here := agrees s name (by simp)
      have rest := fun s other member => agrees s other (List.mem_cons_of_mem name member)
      rcases answer : cb s (itemOf hash (names ++ [name]) (child name)) with ⟨next, control⟩
      rw [answer] at here
      simp only [List.map_cons, visitNodes, answer] at visited
      simp only [List.map_cons, offered, ending, ← here]
      cases control with
      | error failure =>
          cases failure with
          | error reason =>
              cases visited
              simp [offerEach, answer, Rust.kind, Rust.mapError, Rust.fail]
          | panic =>
              cases visited
              simp [offerEach, answer, Rust.kind, Rust.mapError, Rust.panics]
      | ok goes =>
          cases goes with
          | stopWalking =>
              cases visited
              simp [offerEach, answer, Rust.kind, Rust.mapError]
          | skipCurrentNode =>
              have same : verdict.descends (names ++ [name]) (child name) = false := by
                simp [Verdict.descends, ← here, Rust.kind, Rust.mapError]
              obtain ⟨state, visit'⟩ := ih rest visited
              rw [List.filter_cons_of_neg (by simp [same])]
              exact ⟨by rw [state]; simp [offerEach, answer, Rust.kind, Rust.mapError], visit'⟩
          | next =>
              have same : verdict.descends (names ++ [name]) (child name) = (child name).isDir := by
                simp [Verdict.descends, ← here, Rust.kind, Rust.mapError]
              cases isDir : (child name).isDir with
              | true =>
                  simp only [itemOf, isDir, if_true] at visited
                  obtain ⟨state, visit'⟩ := ih rest visited
                  rw [List.filter_cons_of_pos (by rw [same, isDir])]
                  refine ⟨by rw [state]; simp [offerEach, answer, Rust.kind, Rust.mapError], ?_⟩
                  simpa [Rust.kind, Rust.mapError] using visit'
              | false =>
                  simp only [itemOf, isDir, Bool.false_eq_true, if_false] at visited
                  obtain ⟨state, visit'⟩ := ih rest visited
                  rw [List.filter_cons_of_neg (by simp [same, isDir])]
                  exact ⟨by rw [state]; simp [offerEach, answer, Rust.kind, Rust.mapError], visit'⟩

theorem sightsAt_dir {entries : Listing} {child : FileName → Node}
    (found : root.find names = some (.dir none entries child)) : sightsAt root verdict names =
      (entries.val.map fun name => .node (names ++ [name]) (child name)) ++
        ((entries.val.filter fun name => verdict.descends (names ++ [name]) (child name)).reverse.map
          fun name => names ++ [name]).flatMap (sightsAt root verdict) := by
  simp only [sightsAt, found, Node.sights, List.flatMap_map]
  congr 1
  apply List.flatMap_congr
  intro name member
  have listed : name ∈ entries.val := List.mem_of_mem_filter (List.mem_reverse.mp member)
  rw [find_child found listed]

theorem sightsAt_unlistable (unlistable : ∀ entries child, root.find names ≠ some (.dir none entries child)) :
    sightsAt root verdict names = [.unlistable names] := by
  unfold sightsAt
  split
  · rename_i node found
    match node with
    | .file _ => rfl
    | .dir (some _) _ _ => rfl
    | .dir none entries child => exact absurd found (unlistable entries child)
  · rfl

/-- What is not listed is no directory that can be listed. -/
theorem Serves.unlistable (serves : Serves backend version root hash) {path : Path}
    (leads : Leads path names) {reason : StorageBackendError} (listed : backend.listDir version path = .error reason)
    (entries : Listing) (child : FileName → Node) : root.find names ≠ some (.dir none entries child) := by
  intro found
  have lists := (serves.lists path names _ leads).mpr ⟨entries, child, found, rfl⟩
  rw [listed] at lists
  cases lists

theorem AnswersAs.child (agrees : AnswersAs cb hash root top verdict) {entries : Listing}
    {child : FileName → Node} (below : top <+: names)
    (found : root.find names = some (.dir none entries child)) (s : σ) :
    ∀ name ∈ entries.val, Rust.kind (cb s (itemOf hash (names ++ [name]) (child name))).2 =
      verdict (names ++ [name]) (child name) := by
  intro name member
  obtain ⟨rest, rfl⟩ := below
  have here := find_child found member
  rw [List.append_assoc] at here ⊢
  exact agrees s (rest ++ [name]) (child name) (by simp) here

theorem leads_children (names listed : List FileName) :
    List.Forall₂ Leads (listed.map fun name => filePath (names ++ [name]))
      (listed.map fun name => names ++ [name]) := by
  rw [List.forall₂_map_left_iff, List.forall₂_map_right_iff]
  exact List.forall₂_same.mpr fun name _ => leads_filePath (by simp)

theorem children_below {listed : List FileName} {located : List (List FileName)} (here : top <+: names)
    (below : ∀ names ∈ located, top <+: names) :
    ∀ deeper ∈ (listed.map fun name => names ++ [name]) ++ located, top <+: deeper := by
  intro deeper member
  rcases List.mem_append.mp member with member | member
  · obtain ⟨name, -, rfl⟩ := List.mem_map.mp member
    exact here.trans (List.prefix_append names [name])
  · exact below deeper member

/-- The walk offers the nodes of the tree in their order up to the first place that
ends it. -/
theorem walkLoop_sights (serves : Serves backend version root hash)
    (agrees : AnswersAs cb hash root top verdict) {stack : List Path} {located : List (List FileName)}
    (leads : List.Forall₂ Leads stack located) (below : ∀ names ∈ located, top <+: names)
    {fuel : Nat} {s s' : σ} {result : Rust StorageBackendError Unit}
    (walked : walkLoop cb (backend.listDir version) fuel stack s = some (s', result)) :
    s' = offerEach cb hash (offered verdict (located.flatMap (sightsAt root verdict))) s ∧
    Rust.kind result = (ending verdict (located.flatMap (sightsAt root verdict))).getD (.ok ()) := by
  induction fuel generalizing stack located s with
  | zero => simp [walkLoop] at walked
  | succ fuel ih =>
      cases leads with
      | nil =>
          simp only [walkLoop, Option.some.injEq, Prod.mk.injEq] at walked
          obtain ⟨rfl, rfl⟩ := walked
          exact ⟨rfl, rfl⟩
      | @cons path names stack located leads others =>
          rw [List.flatMap_cons]
          unfold walkLoop at walked
          cases listed : backend.listDir version path with
          | error reason =>
              simp only [listed, Option.some.injEq, Prod.mk.injEq] at walked
              obtain ⟨rfl, rfl⟩ := walked
              rw [sightsAt_unlistable (serves.unlistable leads listed)]
              exact ⟨rfl, rfl⟩
          | ok nodes =>
              obtain ⟨entries, child, found, rfl⟩ := (serves.lists path names nodes leads).mp listed
              obtain ⟨here, below⟩ := List.forall_mem_cons.mp below
              simp only [listed] at walked
              rw [sightsAt_dir found, List.append_assoc, ending_append]
              rcases visit : visitNodes cb (dirItems hash names entries child) stack s with ⟨next, outcome⟩
              obtain ⟨state, met⟩ := visitNodes_sights (agrees.child here found) visit
              rw [visit] at walked
              cases ends : ending verdict
                  (entries.val.map fun name => .node (names ++ [name]) (child name)) with
              | some kind =>
                  simp only [ends] at met
                  obtain ⟨returned, rfl, same⟩ := met
                  simp only [Option.some.injEq, Prod.mk.injEq] at walked
                  obtain ⟨rfl, rfl⟩ := walked
                  rw [offered_append_of_ending ends]
                  exact ⟨state, same⟩
              | none =>
                  simp only [ends] at met
                  subst met
                  obtain ⟨final, kind⟩ := ih (List.rel_append (leads_children names _) others)
                    (children_below here below) walked
                  rw [List.flatMap_append] at final kind
                  rw [offered_append _ _ ends]
                  refine ⟨?_, by rw [kind]; rfl⟩
                  rw [final, state]
                  simp [offerEach]

end Eafcc.Storage
