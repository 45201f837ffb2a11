import Eafcc.Storage.Simulation
import Eafcc.Storage.WalkOrder

namespace Eafcc.Storage

open Eafcc.Model

/-! # The calls that the default walk makes -/

/-- A call of `list_dir`, or a call of the callback with its answer. -/
inductive Call (Dir Entry : Type) where
  | lists (dir : Dir)
  | offers (entry : Entry) (answer : Rust WalkDirError WalkRetCtl)

def Call.map {Dir Dir' Entry Entry' : Type} (f : Dir → Dir') (g : Entry → Entry') : Call Dir Entry → Call Dir' Entry'
  | .lists dir => .lists (f dir)
  | .offers entry answer => .offers (g entry) answer

/-- What was offered, with the answers. -/
def answersOf {Dir Entry : Type} (calls : List (Call Dir Entry)) : List (Entry × Rust WalkDirError WalkRetCtl) :=
  calls.filterMap fun
    | .lists _ => none
    | .offers entry answer => some (entry, answer)

theorem answersOf_append {Dir Entry : Type} (first second : List (Call Dir Entry)) :
    answersOf (first ++ second) = answersOf first ++ answersOf second := List.filterMap_append

theorem answersOf_map {Dir Dir' Entry Entry' : Type} (f : Dir → Dir') (g : Entry → Entry')
    (calls : List (Call Dir Entry)) :
    answersOf (calls.map (Call.map f g)) = (answersOf calls).map fun offer => (g offer.1, offer.2) := by
  simp only [answersOf, List.filterMap_map, List.map_filterMap]
  congr 1
  funext call
  cases call <;> rfl

section Loop

variable {σ : Type} (cb : σ → DirItem → σ × Rust WalkDirError WalkRetCtl)
  (listDir : Path → Except StorageBackendError (List DirItem))

/-- The calls of the loop over the nodes of one directory. -/
def visitCalls : List DirItem → σ → List (Call Path DirItem)
  | [], _ => []
  | curNode :: nodes, state =>
      match cb state curNode with
      | (_, .ok .stopWalking) => [.offers curNode (.ok .stopWalking)]
      | (state, .ok control) => .offers curNode (.ok control) :: visitCalls nodes state
      | (_, .error failure) => [.offers curNode (.error failure)]

/-- The calls of the walk, in their order. -/
def walkCalls : Nat → List Path → σ → List (Call Path DirItem)
  | 0, _, _ => []
  | _ + 1, [], _ => []
  | fuel + 1, parentNode :: nodesToVisit, state =>
      .lists parentNode ::
        match listDir parentNode with
        | .error _ => []
        | .ok nodes =>
            visitCalls cb nodes state ++
              match visitNodes cb nodes nodesToVisit state with
              | (_, .done _) => []
              | (state, .more nodesToVisit) => walkCalls fuel nodesToVisit state

/-- The callback with a record of what it was offered and what it answered. -/
def logged : σ × List (DirItem × Rust WalkDirError WalkRetCtl) → DirItem →
    (σ × List (DirItem × Rust WalkDirError WalkRetCtl)) × Rust WalkDirError WalkRetCtl :=
  fun (state, log) node =>
    match cb state node with
    | (state, answer) => ((state, log ++ [(node, answer)]), answer)

end Loop

/-! ## The calls are those of the callback -/

section Logged

variable {σ : Type} {cb : σ → DirItem → σ × Rust WalkDirError WalkRetCtl}
  {listDir : Path → Except StorageBackendError (List DirItem)} {s s' : σ}

theorem logged_eq (cb : σ → DirItem → σ × Rust WalkDirError WalkRetCtl) (s : σ)
    (log : List (DirItem × Rust WalkDirError WalkRetCtl)) (node : DirItem) :
    logged cb (s, log) node = (((cb s node).1, log ++ [(node, (cb s node).2)]), (cb s node).2) := rfl

theorem visitNodes_logged (nodes : List DirItem) (stack : List Path) (s : σ)
    (log : List (DirItem × Rust WalkDirError WalkRetCtl)) :
    visitNodes (logged cb) nodes stack (s, log) =
      (((visitNodes cb nodes stack s).1, log ++ answersOf (visitCalls cb nodes s)), (visitNodes cb nodes stack s).2) := by
  induction nodes generalizing stack s log with
  | nil => simp [visitNodes, visitCalls, answersOf]
  | cons node nodes ih =>
      simp only [visitNodes, visitCalls, logged_eq]
      rcases cb s node with ⟨next, answer⟩
      have one : ∀ calls : List (Call Path DirItem), log ++ answersOf (.offers node answer :: calls) =
          log ++ [(node, answer)] ++ answersOf calls := by
        intro calls
        simp [answersOf]
      cases answer with
      | error failure => cases failure <;> rfl
      | ok control =>
          cases control with
          | stopWalking => rfl
          | skipCurrentNode =>
              dsimp only
              rw [ih, one]
          | next =>
              dsimp only
              rw [one]
              split
              · exact ih _ next _
              · exact ih _ next _

/-- The record of a walk holds its offers and their answers, and changes nothing. -/
theorem walkLoop_logged (fuel : Nat) (stack : List Path) (s : σ) (log : List (DirItem × Rust WalkDirError WalkRetCtl)) :
    walkLoop (logged cb) listDir fuel stack (s, log) = (walkLoop cb listDir fuel stack s).map fun walked =>
      ((walked.1, log ++ answersOf (walkCalls cb listDir fuel stack s)), walked.2) := by
  induction fuel generalizing stack s log with
  | zero => rfl
  | succ fuel ih =>
      cases stack with
      | nil => simp [walkLoop, walkCalls, answersOf]
      | cons path stack =>
          unfold walkLoop walkCalls
          cases listDir path with
          | error reason => simp [answersOf]
          | ok nodes =>
              have listed : ∀ calls : List (Call Path DirItem), answersOf (.lists path :: calls) = answersOf calls :=
                fun calls => rfl
              dsimp only
              rw [visitNodes_logged, listed, answersOf_append]
              rcases visitNodes cb nodes stack s with ⟨next, outcome⟩
              cases outcome with
              | done result => simp [answersOf]
              | more rest =>
                  dsimp only
                  rw [ih, List.append_assoc]

theorem visitNodes_state (nodes : List DirItem) (stack : List Path) (s : σ) :
    (visitNodes cb nodes stack s).1 =
      (answersOf (visitCalls cb nodes s)).foldl (fun state offer => (cb state offer.1).1) s := by
  induction nodes generalizing stack s with
  | nil => rfl
  | cons node nodes ih =>
      simp only [visitNodes, visitCalls]
      rcases answered : cb s node with ⟨next, answer⟩
      have one : ∀ calls : List (Call Path DirItem),
          (answersOf (.offers node answer :: calls)).foldl (fun state offer => (cb state offer.1).1) s =
            (answersOf calls).foldl (fun state offer => (cb state offer.1).1) next := by
        intro calls
        simp [answersOf, answered]
      cases answer with
      | error failure =>
          dsimp only
          rw [one]
          cases failure <;> rfl
      | ok control =>
          cases control with
          | stopWalking => exact (one []).symm
          | skipCurrentNode =>
              dsimp only
              rw [one]
              exact ih stack next
          | next =>
              dsimp only
              rw [one]
              split
              · exact ih _ next
              · exact ih _ next

/-- The walk leaves its callback in the state that it has after all that it was offered. -/
theorem walkLoop_state {fuel : Nat} {stack : List Path} {result : Rust StorageBackendError Unit}
    (walked : walkLoop cb listDir fuel stack s = some (s', result)) :
    s' = (answersOf (walkCalls cb listDir fuel stack s)).foldl (fun state offer => (cb state offer.1).1) s := by
  induction fuel generalizing stack s with
  | zero => cases walked
  | succ fuel ih =>
      cases stack with
      | nil =>
          cases walked
          rfl
      | cons path stack =>
          unfold walkLoop at walked
          unfold walkCalls
          cases listed : listDir path with
          | error reason =>
              simp only [listed] at walked
              cases walked
              rfl
          | ok nodes =>
              have lists : ∀ calls : List (Call Path DirItem), answersOf (.lists path :: calls) = answersOf calls :=
                fun calls => rfl
              have state := @visitNodes_state _ cb nodes stack s
              simp only [listed] at walked
              dsimp only
              rw [lists, answersOf_append, List.foldl_append, ← state]
              rcases visited : visitNodes cb nodes stack s with ⟨next, outcome⟩
              rw [visited] at walked
              cases outcome with
              | done ended =>
                  cases walked
                  rfl
              | more rest => exact ih walked

end Logged

/-! ## Calls on a tree -/

/-- The path by which the walk asks for a directory below its start. -/
def place (start : Path) (item : List FileName → DirItem) (names : List FileName) : Path :=
  if names = [] then start else (item names).absPath

/-- Each directory of a tree is listed with its entries, once each and in some order, or
cannot be listed. -/
structure ListsTree (listDir : Path → Except StorageBackendError (List DirItem)) (start : Path)
    (item : List FileName → DirItem) (node : Node) : Prop where
  top : node.isDir = true
  lists : ∀ names entries child, node.find names = some (.dir none entries child) →
    listDir (place start item names) = .ok (entries.val.map fun name => item (names ++ [name]))
  fails : ∀ names cause entries child, node.find names = some (.dir (some cause) entries child) →
    ∃ reason, listDir (place start item names) = .error reason
  isDir : ∀ names reached, names ≠ [] → node.find names = some reached → (item names).isDir = reached.isDir

abbrev TreeCall := Call (List FileName) (List FileName)

/-- The result with which an answer of the callback ends the walk. -/
def answerEnding : Rust WalkDirError WalkRetCtl → Option (Rust StorageBackendError Unit)
  | .ok .stopWalking => some (.ok ())
  | .ok _ => none
  | .error (.error reason) => some (Rust.fail (.walkDirError reason))
  | .error .panic => some Rust.panics

/-- The result with which a call ends the walk. -/
def callEnding (list : List FileName → Except StorageBackendError (List DirItem)) :
    TreeCall → Option (Rust StorageBackendError Unit)
  | .lists names =>
      match list names with
      | .error reason => some (Rust.fail reason)
      | .ok _ => none
  | .offers _ answer => answerEnding answer

def offeredOf (calls : List TreeCall) : List (List FileName) := (answersOf calls).map Prod.fst

def listedOf (calls : List TreeCall) : List (List FileName) :=
  calls.filterMap fun
    | .lists names => some names
    | .offers _ _ => none

/-- A directory is listed after it was offered and let in; what it holds is offered after
it was listed. -/
def Follows (node : Node) (before : List TreeCall) : TreeCall → Prop
  | .lists names => names = [] ∨ .offers names (.ok .next) ∈ before
  | .offers names _ => ∃ parent name, names = parent ++ [name] ∧ .lists parent ∈ before ∧
      (node.find names).isSome = true

def Ordered (node : Node) (calls : List TreeCall) : Prop :=
  ∀ before call after, calls = before ++ call :: after → Follows node before call

def isDirAt (node : Node) (names : List FileName) : Bool := (node.find names).any Node.isDir

/-- What the calls of a walk are and how it ends. -/
structure WalksTree (list : List FileName → Except StorageBackendError (List DirItem)) (node : Node)
    (calls : List TreeCall) (result : Rust StorageBackendError Unit) : Prop where
  /-- No node is offered twice, no directory listed twice. -/
  once : (offeredOf calls).Nodup ∧ (listedOf calls).Nodup
  /-- Every directory comes before its contents. -/
  ordered : Ordered node calls
  /-- A call that ends the walk is the last one, and gives the result. -/
  ends : ∀ before call after ending, calls = before ++ call :: after → callEnding list call = some ending →
    after = [] ∧ result = ending
  /-- Without such a call exactly the nodes below no skipped directory were offered. -/
  complete : (∀ call ∈ calls, callEnding list call = none) → result = .ok () ∧
    ∀ names, names ∈ offeredOf calls ↔ names ≠ [] ∧ (node.find names).isSome = true ∧
      ∀ above below, names = above ++ below → above ≠ [] → below ≠ [] →
        .offers above (.ok .skipCurrentNode) ∉ calls
  /-- And the start was listed and each directory that the callback let the walk into. -/
  reached : (∀ call ∈ calls, callEnding list call = none) → ∀ names, names ∈ listedOf calls ↔
    names = [] ∨ .offers names (.ok .next) ∈ calls ∧ isDirAt node names = true

/-! ## The loop over one directory -/

section Visit

variable {σ : Type} {cb : σ → DirItem → σ × Rust WalkDirError WalkRetCtl}
  {listDir : Path → Except StorageBackendError (List DirItem)} {start : Path}
  {item : List FileName → DirItem} {node : Node} {names : List FileName}
  {calls : List TreeCall} {answered : List (List FileName × Rust WalkDirError WalkRetCtl)}

def offersOf (answered : List (List FileName × Rust WalkDirError WalkRetCtl)) : List TreeCall :=
  answered.map fun offer => .offers offer.1 offer.2

theorem listedOf_append (first second : List TreeCall) :
    listedOf (first ++ second) = listedOf first ++ listedOf second := List.filterMap_append

theorem answersOf_offersOf (answered : List (List FileName × Rust WalkDirError WalkRetCtl)) :
    answersOf (offersOf answered) = answered := by
  rw [answersOf, offersOf, List.filterMap_map]
  exact List.filterMap_some

theorem listedOf_offersOf (answered : List (List FileName × Rust WalkDirError WalkRetCtl)) :
    listedOf (offersOf answered) = [] := by
  rw [listedOf, offersOf, List.filterMap_map]
  exact List.filterMap_none _

theorem mem_answersOf {answer : Rust WalkDirError WalkRetCtl} :
    (names, answer) ∈ answersOf calls ↔ .offers names answer ∈ calls := by
  simp only [answersOf, List.mem_filterMap]
  constructor
  · intro ⟨call, member, same⟩
    cases call with
    | lists dir => cases same
    | offers entry given =>
        cases same
        exact member
  · exact fun member => ⟨_, member, rfl⟩

theorem mem_listedOf : names ∈ listedOf calls ↔ .lists names ∈ calls := by
  simp only [listedOf, List.mem_filterMap]
  constructor
  · intro ⟨call, member, same⟩
    cases call with
    | lists dir =>
        cases same
        exact member
    | offers entry given => cases same
  · exact fun member => ⟨_, member, rfl⟩

theorem exists_dir {node : Node} {names : List FileName} (isDir : isDirAt node names = true) :
    ∃ failure entries child, node.find names = some (.dir failure entries child) := by
  cases found : node.find names with
  | none => simp [isDirAt, found] at isDir
  | some reached =>
      cases reached with
      | file content => simp [isDirAt, found, Node.isDir] at isDir
      | dir failure entries child => exact ⟨failure, entries, child, rfl⟩

def asksNext : Rust WalkDirError WalkRetCtl → Bool
  | .ok .next => true
  | _ => false

theorem asksNext_eq_true {answer : Rust WalkDirError WalkRetCtl} : asksNext answer = true ↔ answer = .ok .next := by
  match answer with
  | .ok .next | .ok .skipCurrentNode | .ok .stopWalking | .error _ => simp [asksNext]

/-- The directories that the callback lets the walk go into. -/
def letIn (node : Node) (answered : List (List FileName × Rust WalkDirError WalkRetCtl)) : List (List FileName) :=
  (answered.filter fun offer => asksNext offer.2 && isDirAt node offer.1).map Prod.fst

theorem mem_letIn : names ∈ letIn node answered ↔ (names, .ok .next) ∈ answered ∧ isDirAt node names = true := by
  simp only [letIn, List.mem_map, List.mem_filter, Bool.and_eq_true, asksNext_eq_true, Prod.exists,
    exists_and_right, exists_eq_right]
  constructor
  · intro ⟨answer, member, same, isDir⟩
    exact ⟨same ▸ member, isDir⟩
  · exact fun ⟨member, isDir⟩ => ⟨_, member, rfl, isDir⟩

/-- What the loop over the nodes of one directory has offered, and what it leaves. -/
def Visited (node : Node) (start : Path) (item : List FileName → DirItem) (nodes : List (List FileName))
    (answered : List (List FileName × Rust WalkDirError WalkRetCtl)) (stack : List Path) : Visit → Prop
  | .more rest => answered.map Prod.fst = nodes ∧ (∀ offer ∈ answered, answerEnding offer.2 = none) ∧
      rest = (letIn node answered).reverse.map (place start item) ++ stack
  | .done result => answered.map Prod.fst <+: nodes ∧
      ∃ before last, answered = before ++ [last] ∧ (∀ offer ∈ before, answerEnding offer.2 = none) ∧
        answerEnding last.2 = some result

theorem Visited.cons {nodes : List (List FileName)} {answer : Rust WalkDirError WalkRetCtl} {stack : List Path}
    {visit : Visit} (goesOn : answerEnding answer = none)
    (rest : Visited node start item nodes answered
      ((letIn node [(names, answer)]).map (place start item) ++ stack) visit) :
    Visited node start item (names :: nodes) ((names, answer) :: answered) stack visit := by
  cases visit with
  | more left =>
      obtain ⟨offered, passes, rfl⟩ := rest
      refine ⟨by rw [List.map_cons, offered], List.forall_mem_cons.mpr ⟨goesOn, passes⟩, ?_⟩
      have whole : letIn node ((names, answer) :: answered) = letIn node [(names, answer)] ++ letIn node answered := by
        rw [← List.singleton_append, letIn, List.filter_append, List.map_append]
        rfl
      have single : (letIn node [(names, answer)]).reverse = letIn node [(names, answer)] := by
        rw [letIn, List.filter_singleton]
        cases asksNext answer && isDirAt node names <;> rfl
      rw [whole, List.reverse_append, single, List.map_append, List.append_assoc]
  | done result =>
      obtain ⟨offered, before, last, rfl, passes, ends⟩ := rest
      exact ⟨by simpa using offered, (names, answer) :: before, last, rfl,
        List.forall_mem_cons.mpr ⟨goesOn, passes⟩, ends⟩

theorem visit_calls (tree : ListsTree listDir start item node) {entries : Listing} {child : FileName → Node}
    (found : node.find names = some (.dir none entries child)) {listed : List FileName}
    (within : ∀ name ∈ listed, name ∈ entries.val) {stack : List Path} {s s' : σ} {visit : Visit}
    (visited : visitNodes cb (listed.map fun name => item (names ++ [name])) stack s = (s', visit)) :
    ∃ answered, visitCalls cb (listed.map fun name => item (names ++ [name])) s =
        (offersOf answered).map (Call.map (place start item) item) ∧
      Visited node start item (listed.map fun name => names ++ [name]) answered stack visit := by
  induction listed generalizing stack s with
  | nil =>
      simp only [List.map_nil, visitNodes, Prod.mk.injEq] at visited
      obtain ⟨-, rfl⟩ := visited
      exact ⟨[], rfl, rfl, by simp, rfl⟩
  | cons name listed ih =>
      have here := find_child found (within name (by simp))
      have others : ∀ name ∈ listed, name ∈ entries.val := fun name member => within name (by simp [member])
      have isDir : (item (names ++ [name])).isDir = isDirAt node (names ++ [name]) := by
        rw [tree.isDir _ _ (by simp) here, isDirAt, here]
        rfl
      rcases answer : cb s (item (names ++ [name])) with ⟨next, control⟩
      simp only [List.map_cons, visitNodes, answer] at visited
      simp only [List.map_cons, visitCalls, answer]
      cases control with
      | error failure =>
          cases failure with
          | error reason =>
              cases visited
              exact ⟨[(names ++ [name], .error (.error reason))], rfl, by simp, [], _, rfl, by simp, rfl⟩
          | panic =>
              cases visited
              exact ⟨[(names ++ [name], .error .panic)], rfl, by simp, [], _, rfl, by simp, rfl⟩
      | ok goes =>
          cases goes with
          | stopWalking =>
              cases visited
              exact ⟨[(names ++ [name], .ok .stopWalking)], rfl, by simp, [], _, rfl, by simp, rfl⟩
          | skipCurrentNode =>
              obtain ⟨answered, calls, met⟩ := ih others visited
              refine ⟨(names ++ [name], .ok .skipCurrentNode) :: answered, ?_, Visited.cons rfl met⟩
              simp only [calls]
              rfl
          | next =>
              have onward : visitNodes cb (listed.map fun name => item (names ++ [name]))
                  ((letIn node [(names ++ [name], .ok .next)]).map (place start item) ++ stack) next =
                    (s', visit) := by
                rw [letIn, List.filter_singleton]
                simp only [asksNext, Bool.true_and, ← isDir]
                cases directory : (item (names ++ [name])).isDir with
                | true => simpa [directory, place] using visited
                | false => simpa [directory] using visited
              obtain ⟨answered, calls, met⟩ := ih others onward
              refine ⟨(names ++ [name], .ok .next) :: answered, ?_, Visited.cons rfl met⟩
              simp only [calls]
              rfl

/-! ## Where the calls stand -/

theorem ordered_concat {call : TreeCall} (ordered : Ordered node calls) (follows : Follows node calls call) :
    Ordered node (calls ++ [call]) := by
  intro before other after split
  rcases List.eq_nil_or_concat' after with rfl | ⟨after, last, rfl⟩
  · obtain ⟨rfl, same⟩ := List.append_inj' split rfl
    cases same
    exact follows
  · rw [← List.cons_append, ← List.append_assoc] at split
    exact ordered before other after (List.append_inj' split rfl).1

theorem ordered_offers {parent : List FileName} (ordered : Ordered node calls) (listed : .lists parent ∈ calls)
    (below : ∀ offer ∈ answered, ∃ name, offer.1 = parent ++ [name] ∧ (node.find offer.1).isSome = true) :
    Ordered node (calls ++ offersOf answered) := by
  induction answered generalizing calls with
  | nil => simpa [offersOf] using ordered
  | cons offer answered ih =>
      obtain ⟨⟨name, same, found⟩, others⟩ := List.forall_mem_cons.mp below
      have next := ordered_concat ordered
        (show Follows node calls (.offers offer.1 offer.2) from ⟨parent, name, same, listed, found⟩)
      have whole := ih next (List.mem_append_left _ listed) others
      rwa [List.append_assoc] at whole

def entriesAt (node : Node) (names : List FileName) : List (List FileName) :=
  match node.find names with
  | some (.dir none entries _) => entries.val.map fun name => names ++ [name]
  | _ => []

theorem entriesAt_dir {entries : Listing} {child : FileName → Node}
    (found : node.find names = some (.dir none entries child)) :
    entriesAt node names = entries.val.map fun name => names ++ [name] := by
  rw [entriesAt, found]

theorem mem_entriesAt {other : List FileName} : other ∈ entriesAt node names ↔
    ∃ name entries child, other = names ++ [name] ∧ node.find names = some (.dir none entries child) ∧
      name ∈ entries.val := by
  unfold entriesAt
  split
  · rename_i entries child found
    simp only [List.mem_map, found, Option.some.injEq, Node.dir.injEq, true_and]
    constructor
    · intro ⟨name, member, same⟩
      exact ⟨name, entries, child, same.symm, ⟨rfl, rfl⟩, member⟩
    · intro ⟨name, entries', child', same, ⟨equal, _⟩, member⟩
      exact ⟨name, equal ▸ member, same.symm⟩
  · rename_i other found
    simp only [List.not_mem_nil, false_iff, not_exists, not_and]
    intro name entries child _ found' _
    exact found _ _ found'

/-- Different directories have different entries. -/
theorem entriesAt_nodup {located : List (List FileName)} (distinct : located.Nodup) :
    (located.flatMap (entriesAt node)).Nodup := by
  refine List.nodup_flatMap.mpr ⟨fun names _ => ?_, distinct.imp fun differ => ?_⟩
  · unfold entriesAt
    split
    · rename_i entries child found
      exact entries.property.map fun first second same => by simpa using same
    · exact .nil
  · intro other first second
    obtain ⟨name, _, _, rfl, -⟩ := mem_entriesAt.mp first
    obtain ⟨name', _, _, same, -⟩ := mem_entriesAt.mp second
    exact differ (List.append_inj_left' same rfl)

end Visit

/-! ## The whole walk -/

section Walk

variable {σ : Type} {cb : σ → DirItem → σ × Rust WalkDirError WalkRetCtl}
  {listDir : Path → Except StorageBackendError (List DirItem)} {start : Path}
  {item : List FileName → DirItem} {node : Node} {names : List FileName}
  {calls : List TreeCall} {located : List (List FileName)}
  {list : List FileName → Except StorageBackendError (List DirItem)}

/-- The walk goes on: the directories that it was let into are those that it has listed
and those on its stack, and it has offered all that the listed ones hold. -/
structure Pending (list : List FileName → Except StorageBackendError (List DirItem)) (node : Node)
    (calls : List TreeCall) (located : List (List FileName)) : Prop where
  goesOn : ∀ call ∈ calls, callEnding list call = none
  entered : ([] :: letIn node (answersOf calls)).Perm (listedOf calls ++ located)
  offered : offeredOf calls = (listedOf calls).flatMap (entriesAt node)
  nodup : (listedOf calls ++ located).Nodup
  ordered : Ordered node calls

theorem Pending.initial (list : List FileName → Except StorageBackendError (List DirItem)) (node : Node) :
    Pending list node [] [[]] where
  goesOn := by simp
  entered := .refl _
  offered := rfl
  nodup := by simp [listedOf]
  ordered before call after split := by simp at split

/-- The directories on the stack were let in. -/
theorem Pending.follows (pending : Pending list node calls (names :: located)) : Follows node calls (.lists names) := by
  have member := pending.entered.mem_iff.mpr (List.mem_append_right _ (List.mem_cons_self))
  rcases List.mem_cons.mp member with empty | member
  · exact .inl empty
  · exact .inr (mem_answersOf.mp (mem_letIn.mp member).1)

theorem Pending.isDir (top : node.isDir = true) (pending : Pending list node calls (names :: located)) :
    isDirAt node names = true := by
  have member := pending.entered.mem_iff.mpr (List.mem_append_right _ (List.mem_cons_self))
  rcases List.mem_cons.mp member with rfl | member
  · simpa [isDirAt, Node.find] using top
  · exact (mem_letIn.mp member).2

theorem Pending.offered_nodup (pending : Pending list node calls located) : (offeredOf calls).Nodup := by
  rw [pending.offered]
  exact entriesAt_nodup (List.Nodup.of_append_left pending.nodup)

/-- The calls after one more directory was listed. -/
theorem listedOf_more (answered : List (List FileName × Rust WalkDirError WalkRetCtl)) :
    listedOf (calls ++ .lists names :: offersOf answered) = listedOf calls ++ [names] := by
  rw [← List.singleton_append, listedOf_append, listedOf_append, listedOf_offersOf, List.append_nil]
  rfl

theorem answersOf_more (answered : List (List FileName × Rust WalkDirError WalkRetCtl)) :
    answersOf (calls ++ .lists names :: offersOf answered) = answersOf calls ++ answered := by
  rw [← List.singleton_append, answersOf_append, answersOf_append, answersOf_offersOf]
  rfl

theorem offeredOf_more (answered : List (List FileName × Rust WalkDirError WalkRetCtl)) :
    offeredOf (calls ++ .lists names :: offersOf answered) = offeredOf calls ++ answered.map Prod.fst := by
  rw [offeredOf, answersOf_more, List.map_append]
  rfl

theorem Pending.ordered_more (pending : Pending list node calls (names :: located))
    {answered : List (List FileName × Rust WalkDirError WalkRetCtl)}
    (within : ∀ offer ∈ answered, offer.1 ∈ entriesAt node names) :
    Ordered node (calls ++ .lists names :: offersOf answered) := by
  have listed := ordered_concat pending.ordered pending.follows
  have below : ∀ offer ∈ answered, ∃ name, offer.1 = names ++ [name] ∧ (node.find offer.1).isSome = true := by
    intro offer member
    obtain ⟨name, entries, child, same, found, entry⟩ := mem_entriesAt.mp (within offer member)
    refine ⟨name, same, ?_⟩
    rw [same, find_child found entry]
    rfl
  have whole := ordered_offers listed (List.mem_append_right _ (List.mem_singleton.mpr rfl)) below
  rwa [List.append_assoc] at whole

theorem Pending.once_more (pending : Pending list node calls (names :: located))
    {answered : List (List FileName × Rust WalkDirError WalkRetCtl)}
    (prefixed : answered.map Prod.fst <+: entriesAt node names) :
    (offeredOf (calls ++ .lists names :: offersOf answered)).Nodup ∧
      (listedOf (calls ++ .lists names :: offersOf answered)).Nodup := by
  have listed : (listedOf calls ++ [names]).Nodup := by
    have whole := pending.nodup
    rw [← List.singleton_append, ← List.append_assoc] at whole
    exact List.Nodup.of_append_left whole
  refine ⟨?_, by rwa [listedOf_more]⟩
  have all := @entriesAt_nodup node _ listed
  rw [List.flatMap_append, List.flatMap_singleton, ← pending.offered] at all
  rw [offeredOf_more]
  exact all.sublist (prefixed.sublist.append_left _)

theorem letIn_sublist (node : Node) (answered : List (List FileName × Rust WalkDirError WalkRetCtl)) :
    (letIn node answered).Sublist (answered.map Prod.fst) := List.filter_sublist.map _

theorem Pending.entered_more (pending : Pending list node calls (names :: located))
    (answered : List (List FileName × Rust WalkDirError WalkRetCtl)) :
    ([] :: letIn node (answersOf (calls ++ .lists names :: offersOf answered))).Perm
      (listedOf (calls ++ .lists names :: offersOf answered) ++ ((letIn node answered).reverse ++ located)) := by
  have whole : letIn node (answersOf calls ++ answered) = letIn node (answersOf calls) ++ letIn node answered := by
    rw [letIn, List.filter_append, List.map_append]
    rfl
  rw [listedOf_more, answersOf_more, whole, ← List.cons_append]
  refine (pending.entered.append_right _).trans ?_
  rw [List.append_assoc, List.append_assoc, List.cons_append, List.singleton_append]
  have turned : (located ++ letIn node answered).Perm ((letIn node answered).reverse ++ located) :=
    List.perm_append_comm.trans ((List.reverse_perm _).symm.append_right _)
  exact (turned.cons _).append_left _

theorem Pending.goesOn_more (pending : Pending list node calls (names :: located)) {nodes : List DirItem}
    (reads : list names = .ok nodes) {answered : List (List FileName × Rust WalkDirError WalkRetCtl)}
    (passes : ∀ offer ∈ answered, answerEnding offer.2 = none) :
    ∀ call ∈ calls ++ .lists names :: offersOf answered, callEnding list call = none := by
  intro call member
  rcases List.mem_append.mp member with member | member
  · exact pending.goesOn call member
  · rcases List.mem_cons.mp member with rfl | member
    · rw [callEnding, reads]
    · obtain ⟨offer, answer, rfl⟩ := List.mem_map.mp member
      exact passes offer answer

/-- The invariant after one more directory, all of whose entries were offered. -/
theorem Pending.more (pending : Pending list node calls (names :: located)) {nodes : List DirItem}
    (reads : list names = .ok nodes) {answered : List (List FileName × Rust WalkDirError WalkRetCtl)}
    (offered : answered.map Prod.fst = entriesAt node names)
    (passes : ∀ offer ∈ answered, answerEnding offer.2 = none) :
    Pending list node (calls ++ .lists names :: offersOf answered) ((letIn node answered).reverse ++ located) where
  goesOn := pending.goesOn_more reads passes
  entered := pending.entered_more answered
  offered := by
    rw [listedOf_more, offeredOf_more, List.flatMap_append, List.flatMap_singleton, pending.offered, offered]
  nodup := by
    have prefixed : answered.map Prod.fst <+: entriesAt node names := offered ▸ List.prefix_rfl
    obtain ⟨once, -⟩ := pending.once_more prefixed
    refine (pending.entered_more answered).nodup_iff.mp (List.nodup_cons.mpr ⟨fun member => ?_, ?_⟩)
    · -- No entry of a directory is the start.
      have start := (letIn_sublist node _).mem member
      rw [← offeredOf, offeredOf_more, pending.offered, offered, ← List.flatMap_singleton (entriesAt node) names,
        ← List.flatMap_append] at start
      obtain ⟨parent, -, entry⟩ := List.mem_flatMap.mp start
      obtain ⟨name, -, -, same, -⟩ := mem_entriesAt.mp entry
      simp at same
    · exact once.sublist (letIn_sublist node _)
  ordered := by
    apply pending.ordered_more
    intro offer member
    rw [← offered]
    exact List.mem_map_of_mem member

/-! ### How the walk ends -/

theorem walksTree_ended {result : Rust StorageBackendError Unit} {before : List TreeCall} {last : TreeCall}
    (once : (offeredOf (before ++ [last])).Nodup ∧ (listedOf (before ++ [last])).Nodup)
    (ordered : Ordered node (before ++ [last])) (goesOn : ∀ call ∈ before, callEnding list call = none)
    (ends : callEnding list last = some result) : WalksTree list node (before ++ [last]) result where
  once := once
  ordered := ordered
  ends := by
    intro earlier call after ending split ended
    rcases List.eq_nil_or_concat' after with rfl | ⟨after, final, rfl⟩
    · obtain ⟨-, same⟩ := List.append_inj' split rfl
      obtain rfl := List.singleton_inj.mp same
      rw [ends] at ended
      exact ⟨rfl, Option.some.inj ended⟩
    · rw [← List.cons_append, ← List.append_assoc] at split
      have member : call ∈ before := by
        rw [(List.append_inj' split rfl).1]
        simp
      rw [goesOn call member] at ended
      cases ended
  complete := by
    intro goesOn
    rw [goesOn last (by simp)] at ends
    cases ends
  reached := by
    intro goesOn
    rw [goesOn last (by simp)] at ends
    cases ends

theorem Pending.mem_listed (pending : Pending list node calls []) : names ∈ listedOf calls ↔
    names = [] ∨ (names, .ok .next) ∈ answersOf calls ∧ isDirAt node names = true := by
  have same := pending.entered.mem_iff (a := names)
  rw [List.append_nil, List.mem_cons, mem_letIn] at same
  exact same.symm

theorem Pending.mem_offered (pending : Pending list node calls located) : names ∈ offeredOf calls ↔
    ∃ parent ∈ listedOf calls, names ∈ entriesAt node parent := by
  rw [pending.offered, List.mem_flatMap]

theorem Pending.answer_unique (pending : Pending list node calls located)
    {answer answer' : Rust WalkDirError WalkRetCtl} (first : (names, answer) ∈ answersOf calls)
    (second : (names, answer') ∈ answersOf calls) : answer = answer' :=
  congrArg Prod.snd (List.inj_on_of_nodup_map pending.offered_nodup first second rfl)

/-- The callback let the walk into every directory above a node that was offered. -/
theorem Pending.above_offered (pending : Pending list node calls []) {above below : List FileName}
    (proper : above ≠ []) (deeper : below ≠ []) (offered : above ++ below ∈ offeredOf calls) :
    (above, .ok .next) ∈ answersOf calls := by
  induction below using List.reverseRecOn with
  | nil => exact absurd rfl deeper
  | append_singleton below last ih =>
      obtain ⟨parent, listed, entry⟩ := pending.mem_offered.mp offered
      obtain ⟨name, -, -, same, -⟩ := mem_entriesAt.mp entry
      rw [← List.append_assoc] at same
      obtain ⟨rfl, -⟩ := List.append_inj' same rfl
      rcases pending.mem_listed.mp listed with empty | ⟨next, -⟩
      · exact absurd (List.append_eq_nil_iff.mp empty).1 proper
      · by_cases direct : below = []
        · rwa [direct, List.append_nil] at next
        · exact ih direct (List.mem_map_of_mem next)

theorem exists_parent {parent : List FileName} {name : FileName}
    (found : (node.find (parent ++ [name])).isSome = true) :
    ∃ failure entries child, node.find parent = some (.dir failure entries child) ∧ name ∈ entries.val := by
  rw [Node.find_append] at found
  match located : node.find parent with
  | none => simp [located] at found
  | some (.file content) => simp [located, Node.find] at found
  | some (.dir failure entries child) =>
      refine ⟨failure, entries, child, rfl, ?_⟩
      by_contra missing
      simp [located, Node.find, missing] at found

/-- A node below the start was offered if nothing above it was skipped. -/
theorem Pending.offers_below (pending : Pending list node calls [])
    (fails : ∀ names cause entries child, node.find names = some (.dir (some cause) entries child) →
      ∃ reason, list names = .error reason) (proper : names ≠ []) (found : (node.find names).isSome = true)
    (unskipped : ∀ above below, names = above ++ below → above ≠ [] → below ≠ [] →
      .offers above (.ok .skipCurrentNode) ∉ calls) : names ∈ offeredOf calls := by
  induction names using List.reverseRecOn with
  | nil => exact absurd rfl proper
  | append_singleton parent name ih =>
      obtain ⟨failure, entries, child, located, entry⟩ := exists_parent found
      have listed : parent ∈ listedOf calls := by
        by_cases empty : parent = []
        · exact pending.mem_listed.mpr (.inl empty)
        · have offered : parent ∈ offeredOf calls := by
            apply ih empty (by rw [located]; rfl)
            intro above below same proper deeper
            exact unskipped above (below ++ [name]) (by rw [same, List.append_assoc]) proper (by simp)
          obtain ⟨⟨parent, answer⟩, answered, rfl⟩ := List.mem_map.mp offered
          have asked : .offers parent answer ∈ calls := mem_answersOf.mp answered
          have goesOn : answerEnding answer = none := pending.goesOn _ asked
          match answer with
          | .ok .next => exact pending.mem_listed.mpr (.inr ⟨answered, by rw [isDirAt, located]; rfl⟩)
          | .ok .skipCurrentNode => exact absurd asked (unskipped parent [name] rfl empty (by simp))
          | .ok .stopWalking | .error (.error _) | .error .panic => cases goesOn
      have listable : failure = none := by
        cases failure with
        | none => rfl
        | some cause =>
            obtain ⟨reason, failed⟩ := fails parent cause entries child located
            have goesOn := pending.goesOn _ (mem_listedOf.mp listed)
            rw [callEnding, failed] at goesOn
            cases goesOn
      subst listable
      exact pending.mem_offered.mpr ⟨parent, listed, mem_entriesAt.mpr ⟨name, entries, child, rfl, located, entry⟩⟩

theorem Pending.finished (pending : Pending list node calls [])
    (fails : ∀ names cause entries child, node.find names = some (.dir (some cause) entries child) →
      ∃ reason, list names = .error reason) : WalksTree list node calls (.ok ()) where
  once := ⟨pending.offered_nodup, by simpa using pending.nodup⟩
  ordered := pending.ordered
  ends := by
    intro before call after ending split ended
    rw [pending.goesOn call (by simp [split])] at ended
    cases ended
  complete := by
    refine fun _ => ⟨rfl, fun names => ⟨fun offered => ?_, fun ⟨proper, found, unskipped⟩ => ?_⟩⟩
    · obtain ⟨parent, listed, entry⟩ := pending.mem_offered.mp offered
      obtain ⟨name, entries, child, same, located, member⟩ := mem_entriesAt.mp entry
      refine ⟨by simp [same], by rw [same, find_child located member]; rfl, ?_⟩
      intro above below whole proper deeper skipped
      have next := pending.above_offered proper deeper (whole ▸ offered)
      exact absurd (pending.answer_unique next (mem_answersOf.mpr skipped)) (by simp)
    · exact pending.offers_below fails proper found unskipped
  reached := by
    intro _ names
    rw [pending.mem_listed, mem_answersOf]

/-- A directory that cannot be listed ends the walk. -/
theorem Pending.unlisted (pending : Pending list node calls (names :: located)) {reason : StorageBackendError}
    (failed : list names = .error reason) : WalksTree list node (calls ++ [.lists names]) (Rust.fail reason) := by
  have once := @Pending.once_more _ _ _ _ _ pending [] (List.nil_prefix)
  exact walksTree_ended once (ordered_concat pending.ordered pending.follows) pending.goesOn
    (by simp only [callEnding, failed])

/-- The callback ends the walk at a node of the directory. -/
theorem Pending.stopped (pending : Pending list node calls (names :: located)) {nodes : List DirItem}
    (reads : list names = .ok nodes) {stack : List Path} {result : Rust StorageBackendError Unit}
    (met : Visited node start item (entriesAt node names) answered stack (.done result)) :
    WalksTree list node (calls ++ .lists names :: offersOf answered) result := by
  obtain ⟨prefixed, before, last, rfl, passes, ends⟩ := met
  have split : calls ++ .lists names :: offersOf (before ++ [last]) =
      (calls ++ .lists names :: offersOf before) ++ [.offers last.1 last.2] := by
    simp [offersOf]
  have once := pending.once_more prefixed
  have ordered : Ordered node (calls ++ .lists names :: offersOf (before ++ [last])) :=
    pending.ordered_more fun offer member => prefixed.subset (List.mem_map_of_mem member)
  rw [split] at once ordered ⊢
  exact walksTree_ended once ordered (pending.goesOn_more reads passes) ends

/-! ### The loop -/

theorem walk_calls (tree : ListsTree listDir start item node)
    (pending : Pending (fun names => listDir (place start item names)) node calls located) {fuel : Nat} {s s' : σ}
    {result : Rust StorageBackendError Unit}
    (walked : walkLoop cb listDir fuel (located.map (place start item)) s = some (s', result)) :
    ∃ later, walkCalls cb listDir fuel (located.map (place start item)) s = later.map (Call.map (place start item) item) ∧
      WalksTree (fun names => listDir (place start item names)) node (calls ++ later) result := by
  induction fuel generalizing calls located s with
  | zero => cases walked
  | succ fuel ih =>
      cases located with
      | nil =>
          cases walked
          exact ⟨[], rfl, by rw [List.append_nil]; exact pending.finished tree.fails⟩
      | cons names located =>
          rw [List.map_cons] at walked ⊢
          unfold walkLoop at walked
          unfold walkCalls
          obtain ⟨failure, entries, child, found⟩ := exists_dir (pending.isDir tree.top)
          cases failure with
          | some cause =>
              obtain ⟨reason, failed⟩ := tree.fails names cause entries child found
              rw [failed] at walked ⊢
              cases walked
              exact ⟨[.lists names], rfl, pending.unlisted failed⟩
          | none =>
              have reads := tree.lists names entries child found
              rw [reads] at walked ⊢
              dsimp only at walked ⊢
              rcases visit : visitNodes cb (entries.val.map fun name => item (names ++ [name]))
                (located.map (place start item)) s with ⟨next, outcome⟩
              obtain ⟨answered, visited, met⟩ := visit_calls tree found (fun _ member => member) visit
              rw [← entriesAt_dir found] at met
              rw [visit] at walked
              rw [visited]
              cases outcome with
              | done returned =>
                  cases walked
                  exact ⟨.lists names :: offersOf answered, by simp [Call.map], pending.stopped reads met⟩
              | more rest =>
                  obtain ⟨offered, passes, rfl⟩ := met
                  rw [← List.map_append] at walked ⊢
                  obtain ⟨later, traced, walks⟩ := ih (pending.more reads offered passes) walked
                  refine ⟨.lists names :: (offersOf answered ++ later), ?_, ?_⟩
                  · have joined : (offersOf answered ++ later).map (Call.map (place start item) item) =
                        (offersOf answered).map (Call.map (place start item) item) ++
                          later.map (Call.map (place start item) item) := List.map_append
                    rw [List.map_cons, joined, ← traced]
                    rfl
                  · rwa [List.append_assoc] at walks

theorem tree_terminates (tree : ListsTree listDir start item node) (s : σ) :
    ∃ result, ∀ fuel, node.dirCount < fuel → walkLoop cb listDir fuel [start] s = some result := by
  let weighs (path : Path) (weight : Nat) : Prop := ∃ names, isDirAt node names = true ∧
    path = place start item names ∧ weight = dirsAt node names
  have falls : ∀ path weight nodes, weighs path weight → listDir path = .ok nodes → ∃ weights : List Nat,
      List.Forall₂ (fun node weight => node.isDir = true → weighs node.absPath weight) nodes weights ∧
        weights.sum < weight := by
    intro path weight nodes here listed
    obtain ⟨names, isDir, rfl, rfl⟩ := here
    obtain ⟨failure, entries, child, found⟩ := exists_dir isDir
    cases failure with
    | some cause =>
        obtain ⟨reason, failed⟩ := tree.fails names cause entries child found
        rw [failed] at listed
        cases listed
    | none =>
        obtain rfl := Except.ok.inj ((tree.lists names entries child found).symm.trans listed)
        refine ⟨entries.val.map fun name => dirsAt node (names ++ [name]), ?_, ?_⟩
        · rw [List.forall₂_map_left_iff, List.forall₂_map_right_iff]
          refine List.forall₂_same.mpr fun name member isDir => ⟨names ++ [name], ?_, ?_, rfl⟩
          · have deeper := find_child found member
            rw [tree.isDir _ _ (by simp) deeper] at isDir
            rw [isDirAt, deeper]
            exact isDir
          · simp [place]
        · rw [dirsAt_dir found]
          omega
  have stacked : List.Forall₂ weighs [start] [node.dirCount] :=
    .cons ⟨[], by simpa [isDirAt, Node.find] using tree.top, rfl, by simp [dirsAt, Node.find]⟩ .nil
  obtain ⟨result, walked⟩ : ∃ result, walkLoop cb listDir (node.dirCount + 1) [start] s = some result :=
    walkLoop_weighed falls stacked s _ (by simp)
  exact ⟨result, fun fuel more => walkLoop_le more walked⟩

theorem walkCalls_le {fuel more : Nat} (enough : fuel ≤ more) {stack : List Path} {s : σ}
    {result : σ × Rust StorageBackendError Unit} (walked : walkLoop cb listDir fuel stack s = some result) :
    walkCalls cb listDir more stack s = walkCalls cb listDir fuel stack s := by
  induction fuel generalizing more stack s with
  | zero => cases walked
  | succ fuel ih =>
      obtain ⟨more, rfl⟩ := Nat.exists_eq_add_of_le' (Nat.lt_of_lt_of_le (Nat.succ_pos fuel) enough)
      cases stack with
      | nil => rfl
      | cons path stack =>
          unfold walkLoop at walked
          unfold walkCalls
          cases listed : listDir path with
          | error reason => rfl
          | ok nodes =>
              simp only [listed] at walked ⊢
              rcases visit : visitNodes cb nodes stack s with ⟨next, outcome⟩
              cases outcome with
              | done returned => rfl
              | more rest =>
                  rw [visit] at walked
                  dsimp only
                  rw [ih (Nat.le_of_succ_le_succ enough) walked]

end Walk

/-! ## Trees in a file system -/

namespace FilesystemBackend

variable {fs : FileSystem} {backend : FilesystemBackend} {version : VersionItem} {start : Path} {node : Node}

def pathBelow (start : Path) (names : List FileName) : Path := if names = [] then start else below start names

theorem pathBelow_concat (start : Path) (names : List FileName) (name : FileName) :
    pathBelow start (names ++ [name]) = below start (names ++ [name]) := if_neg (by simp)

theorem join_pathBelow (nonempty : start ≠ []) (names : List FileName) (name : FileName) :
    Path.join (pathBelow start names) name.text = pathBelow start (names ++ [name]) := by
  rw [pathBelow_concat, pathBelow]
  split
  · rename_i empty
    subst empty
    simp [below, relativePath]
  · exact join_below nonempty names name

theorem nodeAt_pathBelow (absolute : Path.isAbsolute start = true)
    (found : backend.nodeAt fs version start = .ok node) {names : List FileName} {reached : Node}
    (located : node.find names = some reached) :
    Path.isAbsolute (pathBelow start names) = true ∧ backend.nodeAt fs version (pathBelow start names) = .ok reached := by
  have nonempty : start ≠ [] := by
    rintro rfl
    cases absolute
  induction names using List.reverseRecOn generalizing reached with
  | nil =>
      rw [Node.find] at located
      cases located
      exact ⟨absolute, found⟩
  | append_singleton names name ih =>
      have present : (node.find (names ++ [name])).isSome = true := by
        rw [located]
        rfl
      obtain ⟨failure, entries, child, parent, entry⟩ := exists_parent present
      obtain ⟨above, here⟩ := ih parent
      rw [find_child parent entry] at located
      cases located
      rw [← join_pathBelow nonempty]
      exact ⟨isAbsolute_join above name, nodeAt_join above here entry⟩

/-- The backend lists the tree below every directory of a version. -/
theorem listsTree (absolute : Path.isAbsolute start = true) (found : backend.nodeAt fs version start = .ok node)
    (isDir : node.isDir = true) : ∃ item, ListsTree (backend.listDir fs version) start item node ∧
      ∀ names, names ≠ [] → (item names).absPath = below start names := by
  have nonempty : start ≠ [] := by
    rintro rfl
    cases absolute
  have listings : ∀ names, ∃ hash : FileName → ObjectID, ∀ entries child,
      node.find names = some (.dir none entries child) →
        backend.listDir fs version (pathBelow start names) = .ok (itemsAt (pathBelow start names) hash entries child) := by
    intro names
    match located : node.find names with
    | none | some (.file _) | some (.dir (some _) _ _) => exact ⟨fun _ => ⟨#[]⟩, fun _ _ same => by simp at same⟩
    | some (.dir none entries child) =>
        obtain ⟨hash, listed, -⟩ := listDir_dir (nodeAt_pathBelow absolute found located).2
        refine ⟨hash, fun entries' child' same => ?_⟩
        cases same
        exact listed
  choose hash listings using listings
  let item (names : List FileName) : DirItem :=
    { absPath := below start names
      isDir := isDirAt node names
      hash := (names.getLast?.map (hash names.dropLast)).getD ⟨#[]⟩ }
  have placed : ∀ names, place start item names = pathBelow start names := fun names => rfl
  refine ⟨item, ?_, fun _ _ => rfl⟩
  exact {
    top := isDir
    lists := by
      intro names entries child located
      rw [placed, listings names entries child located, itemsAt]
      congr 1
      apply List.map_congr_left
      intro name member
      have deeper := find_child located member
      simp [item, join_pathBelow nonempty, pathBelow_concat, isDirAt, deeper]
    fails := by
      intro names cause entries child located
      rw [placed]
      exact ⟨_, listDir_failure (nodeAt_pathBelow absolute found located).2⟩
    isDir := by
      intro names reached _ located
      simp [item, isDirAt, located] }

end FilesystemBackend

/-- The default walk over a tree ends, and its calls are as described: what it offers are
the calls of its callback, which leave the callback in the state in which the walk does.
The filesystem backend lists such a tree below every directory of a version. -/
theorem walkDir_walksTree :
    (∀ (σ : Type) (cb : σ → DirItem → σ × Rust WalkDirError WalkRetCtl) (backend : StorageBackend)
      (version : VersionItem) (start : Path) (item : List FileName → DirItem) (node : Node) (s : σ),
      backend.WalksByDefault → ListsTree (backend.listDir version) start item node →
      ∃ enough s' result calls,
        (∀ fuel, enough ≤ fuel → backend.walkDir cb fuel version start s = some (s', result) ∧
          backend.walkDir (logged cb) fuel version start (s, []) =
            some ((s', (answersOf calls).map fun offer => (item offer.1, offer.2)), result) ∧
          walkCalls cb (backend.listDir version) fuel [start] s = calls.map (Call.map (place start item) item)) ∧
        s' = (offeredOf calls).foldl (fun state names => (cb state (item names)).1) s ∧
        WalksTree (fun names => backend.listDir version (place start item names)) node calls result) ∧
    ∀ (files : FilesystemBackend) (fs : FileSystem) (version : VersionItem) (start : Path) (node : Node),
      Path.isAbsolute start = true → files.nodeAt fs version start = .ok node → node.isDir = true →
      (files.toStorageBackend fs).WalksByDefault ∧
      ∃ item, ListsTree ((files.toStorageBackend fs).listDir version) start item node ∧
        ∀ names, names ≠ [] → (item names).absPath = below start names := by
  constructor
  · intro σ cb backend version start item node s default tree
    obtain ⟨⟨s', result⟩, walks⟩ := @tree_terminates σ cb _ _ _ _ tree s
    have walked := walks (node.dirCount + 1) (Nat.lt_succ_self _)
    obtain ⟨calls, traced, described⟩ := @walk_calls σ cb _ _ _ _ [] [[]] tree (Pending.initial _ _) _ _ _ _ walked
    have traced' : walkCalls cb (backend.listDir version) (node.dirCount + 1) [start] s =
        calls.map (Call.map (place start item) item) := traced
    refine ⟨node.dirCount + 1, s', result, calls, fun fuel more => ?_, ?_, described⟩
    · have later := walks fuel more
      have sameCalls := (walkCalls_le more walked).trans traced'
      refine ⟨(default _ _ _ _ _ _).trans later, (default _ _ _ _ _ _).trans ?_, sameCalls⟩
      rw [defaultWalkDir, walkLoop_logged, sameCalls, answersOf_map, later]
      rfl
    · rw [walkLoop_state walked]
      rw [traced', answersOf_map, offeredOf, List.foldl_map, List.foldl_map]
  · intro files fs version start node absolute found isDir
    exact ⟨files.toStorageBackend_walks fs, FilesystemBackend.listsTree absolute found isDir⟩

section Sample

def subName : FileName := ⟨['a'], by decide⟩

/-- A directory with a directory that holds a file. -/
def nestedTree : Node :=
  .dir none ⟨[subName], by simp⟩ fun _ => .dir none ⟨[subName], by simp⟩ fun _ => .file (.ok (toUtf8 []))

def nestedSystem : FileSystem where
  root := .dir none ⟨[subName], by simp⟩ fun _ => nestedTree
  cwd := []

def nestedVersion : VersionItem := { name := ['a'], id := toUtf8 ['a'] }

/-- A callback that counts the nodes and skips from the second one on. -/
def countNodes (seen : Nat) (_ : DirItem) : Nat × Rust WalkDirError WalkRetCtl :=
  (seen + 1, .ok (if seen = 0 then .next else .skipCurrentNode))

theorem walkDir_walksTree_sample : ∃ item fuel s' result calls,
    ((⟨['/']⟩ : FilesystemBackend).toStorageBackend nestedSystem).walkDir (logged countNodes) fuel nestedVersion ['/']
      (0, []) = some ((s', (answersOf calls).map fun offer => (item offer.1, offer.2)), result) ∧
    s' = (offeredOf calls).foldl (fun seen names => (countNodes seen (item names)).1) 0 ∧
    WalksTree (fun names => ((⟨['/']⟩ : FilesystemBackend).toStorageBackend nestedSystem).listDir nestedVersion
      (place ['/'] item names)) nestedTree calls result := by
  have found : (⟨['/']⟩ : FilesystemBackend).nodeAt nestedSystem nestedVersion ['/'] = .ok nestedTree :=
    (FilesystemBackend.nodeAt_eq_ok (fromUtf8_toUtf8 ['a']) rfl).mpr rfl
  obtain ⟨default, item, tree, -⟩ :=
    walkDir_walksTree.2 ⟨['/']⟩ nestedSystem nestedVersion ['/'] nestedTree rfl found rfl
  obtain ⟨enough, s', result, calls, walks, state, described⟩ := walkDir_walksTree.1 Nat countNodes
    ((⟨['/']⟩ : FilesystemBackend).toStorageBackend nestedSystem) nestedVersion ['/'] item nestedTree 0 default tree
  exact ⟨item, enough, s', result, calls, (walks enough (Nat.le_refl _)).2.1, state, described⟩

end Sample

end Eafcc.Storage
