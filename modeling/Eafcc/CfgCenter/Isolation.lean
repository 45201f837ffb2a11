import Eafcc.CfgCenter.AllLinked
import Eafcc.CfgCenter.Checkouts

namespace Eafcc.CfgCenter

open Eafcc.RuleEngine Eafcc.Model Eafcc.Storage Eafcc.Ffi

/-! # What a namespace depends on -/

variable {Pri : Type} {crates : Crates Pri} {rel : Path} {ns : Str} {names : List FileName}
  {first second : Checkout} {index index' : CFGIndex Pri}

/-! ## Versions that agree on a namespace -/

/-- The files below a directory are the same, in whatever order they are listed. -/
def AgreeBelow (tree tree' : Node) (top : List FileName) : Prop :=
  (Walkable tree top ↔ Walkable tree' top) ∧
  ∀ path content, tree.find (top ++ path) = some (.file content) ↔ tree'.find (top ++ path) = some (.file content)

def Agree (ns : Str) (first second : Checkout) : Prop :=
  ∀ names, NamedBy names ns → ∀ directory ∈ [rulesName, linksName, resesName],
    AgreeBelow first.tree second.tree (directory :: names)

/-- The directories of the namespace hold the same and are listed in the same order. -/
def SameListed (ns : Str) (first second : Checkout) : Prop :=
  ∀ names, NamedBy names ns → ∀ directory ∈ [rulesName, linksName, resesName],
    Option.Rel Node.SameListing (first.tree.find (directory :: names)) (second.tree.find (directory :: names))

/-! ## Answers that are the same -/

section Answers

variable [LinearOrder Pri]

/-- What a query may answer, however the rules are visited and ties are sorted. -/
def CanAnswer (store : MemStorage Pri) (whoami : MatchContext) (keys : List Str) (viewMode : ViewMode)
    (needExplain : Bool) (answer : Option (List (CFGResult Pri))) : Prop :=
  ∃ sort rules, SortsByPriority sort ∧ store.indices.ruleStor.Iteration rules ∧
    Querier.get sort store rules whoami keys viewMode needExplain = answer

/-- The results of each key are the same up to their order. -/
def Rearranged (keys : List Str) (results results' : List (CFGResult Pri)) : Prop :=
  ∃ groups groups' : Str → List (CFGResult Pri), results = keys.flatMap groups ∧ results' = keys.flatMap groups' ∧
    ∀ key, (groups key).Perm (groups' key)

def Covers (store store' : MemStorage Pri) : Prop :=
  ∀ whoami keys viewMode needExplain answer, CanAnswer store whoami keys viewMode needExplain answer →
    ∃ answer', CanAnswer store' whoami keys viewMode needExplain answer' ∧ Option.Rel (Rearranged keys) answer answer'

def AnswerAlike (store store' : MemStorage Pri) : Prop := Covers store store' ∧ Covers store' store

/-- A sort that gives for one list what another gives for a rearrangement of it. -/
noncomputable def sortAs (sort : SortUnstableBy Pri) (links links' : List (IdxLinkItem Pri)) : SortUnstableBy Pri :=
  open Classical in fun compare given => if given = links' then sort compare links else sort compare given

theorem sortsByPriority_sortAs {sort : SortUnstableBy Pri} (sorts : SortsByPriority sort)
    {links links' : List (IdxLinkItem Pri)} (perm : links.Perm links') :
    SortsByPriority (sortAs sort links links') := by
  intro given
  unfold sortAs
  split
  · rename_i same
    rw [same]
    exact ⟨(sorts links).1.trans perm, (sorts links).2⟩
  · exact sorts given

omit [LinearOrder Pri] in
theorem SameContent.symm (same : SameContent index index') : SameContent index' index where
  rules key := (same.rules key).symm
  reses key := (same.reses key).symm
  links rulePath := (same.links rulePath).symm

omit [LinearOrder Pri] in
theorem SameContent.nextKey_eq (same : SameContent index index') (version version' : VersionItem)
    (needExplain : Bool) (key : Str) (links : List (IdxLinkItem Pri)) :
    nextKey (storeOf version index) needExplain key links = nextKey (storeOf version' index') needExplain key links := by
  induction links with
  | nil => rfl
  | cons link links ih =>
      have resource : (storeOf version index).indices.resStor.getResByPath link.absResPath =
        (storeOf version' index').indices.resStor.getResByPath link.absResPath := same.reses link.absResPath
      simp only [nextKey, resource, ih]

omit [LinearOrder Pri] in
/-- The links that the queries collect are the same up to their order. -/
theorem SameContent.collected (same : SameContent index index') {version version' : VersionItem}
    {whoami : MatchContext} {rules : List IdxRuleItem} {links : List (IdxLinkItem Pri)}
    (order : index.ruleStor.Iteration rules) (order' : index'.ruleStor.Iteration rules)
    (collected : collectActLinks (storeOf version index) whoami rules = some links) :
    ∃ links', collectActLinks (storeOf version' index') whoami rules = some links' ∧ links.Perm links' := by
  cases collected' : collectActLinks (storeOf version' index') whoami rules with
  | none =>
      rw [collectActLinks_eq_none] at collected'
      rw [collectActLinks_eq_none.mpr collected'] at collected
      cases collected
  | some links' =>
      have active : (links : Multiset (IdxLinkItem Pri)) = links' := by
        rw [coe_collectActLinks order collected, coe_collectActLinks order' collected', same.activeLinks_eq]
      exact ⟨links', rfl, Multiset.coe_eq_coe.mp active⟩

/-- Indices with the same content answer alike. -/
theorem SameContent.covers (same : SameContent index index') (version version' : VersionItem) :
    Covers (storeOf version index) (storeOf version' index') := by
  intro whoami keys viewMode needExplain answer answers
  obtain ⟨sort, rules, sorts, order, answered⟩ := answers
  have storage : index.ruleStor.storage = index'.ruleStor.storage := Finmap.ext_lookup same.rules
  have order' : index'.ruleStor.Iteration rules := by
    rw [RuleIndex.Iteration, ← storage]
    exact order
  rw [get_eq] at answered
  cases collected : collectActLinks (storeOf version index) whoami rules with
  | none =>
      have panics : collectActLinks (storeOf version' index') whoami rules = none :=
        collectActLinks_eq_none.mpr (collectActLinks_eq_none.mp collected)
      rw [collected] at answered
      subst answered
      refine ⟨none, ⟨sort, rules, sorts, order', ?_⟩, .none⟩
      rw [get_eq, panics]
      rfl
  | some links =>
      obtain ⟨links', collected', perm⟩ := same.collected order order' collected
      rw [collected] at answered
      subst answered
      refine ⟨_, ⟨sortAs sort links links', rules, sortsByPriority_sortAs sorts perm, order', rfl⟩, ?_⟩
      rw [get_eq, collected']
      refine .some ⟨_, _, rfl, rfl, fun key => ?_⟩
      cases viewMode with
      | overlaidView =>
          have sorted : sortAs sort links links' compareLinks links' = sort compareLinks links := if_pos rfl
          simp only [entriesOf, perm.length_eq, sorted, same.nextKey_eq version version']
          exact .refl _
      | allLinkedResView =>
          apply Multiset.coe_eq_coe.mp
          rw [coe_entriesOf _ order collected, coe_entriesOf _ order' collected', same.linkedEntries_eq]

theorem SameContent.answerAlike (same : SameContent index index') (version version' : VersionItem) :
    AnswerAlike (storeOf version index) (storeOf version' index') :=
  ⟨same.covers version version', same.symm.covers version' version⟩

end Answers

/-! ## Namespaces that go down -/

section Forward

theorem AgreeBelow.symm {tree tree' : Node} {top : List FileName} (agree : AgreeBelow tree tree' top) :
    AgreeBelow tree' tree top :=
  ⟨agree.1.symm, fun path content => (agree.2 path content).symm⟩

theorem Agree.symm (agree : Agree ns first second) : Agree ns second first :=
  fun names named directory member => (agree names named directory member).symm

theorem AgreeBelow.readable {tree tree' : Node} {top : List FileName} (agree : AgreeBelow tree tree' top)
    {decodes : Bytes → Prop} (readable : Readable tree top decodes) : Readable tree' top decodes :=
  ⟨agree.1.mp readable.1, fun path content located => readable.2 path content ((agree.2 path content).mpr located)⟩

theorem AgreeBelow.files {tree tree' : Node} {top : List FileName} (agree : AgreeBelow tree tree' top)
    (walkable : Walkable tree top) : (filesAt tree top).Perm (filesAt tree' top) := by
  obtain ⟨node', found', -⟩ := agree.1.mp walkable
  obtain ⟨node, found, -⟩ := walkable
  have distinct : ∀ {tree : Node} {node : Node}, tree.find top = some node → (filesAt tree top).Nodup := by
    intro tree node found
    rw [filesAt, found]
    exact node.files_nodup.of_map _
  refine (List.perm_ext_iff_of_nodup (distinct found) (distinct found')).mpr ?_
  intro file
  obtain ⟨path, content⟩ := file
  rw [mem_filesAt ⟨node, found⟩, mem_filesAt ⟨node', found'⟩, agree.2 path content]

theorem Sound.agree {tree tree' : Node} (sound : Sound crates tree names)
    (agree : ∀ directory ∈ [rulesName, linksName, resesName], AgreeBelow tree tree' (directory :: names)) :
    Sound crates tree' names where
  rules := (agree rulesName (by simp)).readable sound.rules
  links := (agree linksName (by simp)).readable sound.links
  reses := (agree resesName (by simp)).readable sound.reses

/-- The same files under the same keys give the same content. -/
theorem Filed.sameContent {tree tree' : Node} {before : FileName → List Str}
    (agree : ∀ directory ∈ [rulesName, linksName, resesName], AgreeBelow tree tree' (directory :: names))
    (sound : Sound crates tree names) (filed : Filed crates tree names before index)
    (filed' : Filed crates tree' names before index') : SameContent index index' where
  rules key := by
    apply Option.ext
    intro item
    rw [filed.rules, filed'.rules]
    simp only [(agree rulesName (by simp)).2]
  reses key := by
    apply Option.ext
    intro res
    rw [filed.reses, filed'.reses]
    simp only [(agree resesName (by simp)).2]
  links rulePath := by
    have files := (agree linksName (by simp)).files sound.links.1
    exact (filed.links rulePath).trans ((files.flatMap_right _).trans (filed'.links rulePath).symm)

theorem kind_thenLoad {ε α β : Type} {run run' : Option (Rust ε α)} {next next' : α → Option (Rust ε β)}
    (same : run.map Rust.kind = run'.map Rust.kind)
    (rest : ∀ value, (next value).map Rust.kind = (next' value).map Rust.kind) :
    (thenLoad run next).map Rust.kind = (thenLoad run' next').map Rust.kind := by
  match run, run' with
  | none, none => rfl
  | some (.ok value), some (.ok value') =>
      have equal : value = value' := by simpa [Rust.kind, Rust.mapError] using same
      rw [← equal]
      exact rest value
  | some (.error (.error _)), some (.error (.error _)) => rfl
  | some (.error .panic), some (.error .panic) => rfl
  | none, some _ | some _, none => simp at same
  | some (.ok _), some (.error (.error _)) | some (.ok _), some (.error .panic)
  | some (.error (.error _)), some (.ok _) | some (.error .panic), some (.ok _)
  | some (.error (.error _)), some (.error .panic)
  | some (.error .panic), some (.error (.error _)) => simp [Rust.kind, Rust.mapError] at same

theorem Checkout.unlisted {checkout : Checkout} {directory : FileName}
    (single : ¬ ['/', '/'] <+: '/' :: rel) (named : NamedBy names ('/' :: rel))
    (missing : checkout.tree.find (directory :: names) = none) :
    ∃ reason, checkout.files.listDir checkout.fs checkout.version (Path.join ('/' :: directory.text) rel) =
      .error reason := by
  cases located : checkout.nodeAt (Path.join ('/' :: directory.text) rel) with
  | error reason => exact ⟨reason, FilesystemBackend.listDir_error located⟩
  | ok node =>
      have found := (checkout.nodeAt_walk directory single named).mp located
      rw [missing] at found
      cases found

variable (accepted : CFGCenterInner.validNamespace ('/' :: rel) = true)
  (single : ¬ ['/', '/'] <+: '/' :: rel) (named : NamedBy names ('/' :: rel))

include accepted single named

/-- A loader has one result on directories that are listed alike, up to the text of the
error if they are missing. -/
theorem loader_alike {Obj : Type} {decode : Bytes → Except DataLoaderError Obj}
    {add : CFGIndex Pri → Str → Obj → Option (CFGIndex Pri)} (directory : FileName)
    (same : Option.Rel Node.SameListing (first.tree.find (directory :: names)) (second.tree.find (directory :: names)))
    (fuel : Nat) (index : CFGIndex Pri) :
    (loadObjects first.backend directory.text decode add fuel ('/' :: rel) first.version index).map Rust.kind =
      (loadObjects second.backend directory.text decode add fuel ('/' :: rel) second.version index).map Rust.kind := by
  cases found : first.tree.find (directory :: names) with
  | none =>
      cases found' : second.tree.find (directory :: names) with
      | some node' =>
          rw [found, found'] at same
          cases same
      | none =>
          obtain ⟨reason, unlisted⟩ := first.unlisted single named found
          obtain ⟨reason', unlisted'⟩ := second.unlisted single named found'
          rw [Checkout.backend, Checkout.backend, loadObjects_unlisted unlisted, loadObjects_unlisted unlisted']
          split <;> rfl
  | some node =>
      cases found' : second.tree.find (directory :: names) with
      | none =>
          rw [found, found'] at same
          cases same
      | some node' =>
          rw [found, found'] at same
          have alike : node.SameListing node' := by
            cases same
            assumption
          have located := (first.nodeAt_walk directory single named).mpr found
          have located' := (second.nodeAt_walk directory single named).mpr found'
          exact congrArg _ (loadObjects_alike accepted accepted located located' alike (fun _ _ _ _ _ _ => rfl)
            fuel index)

theorem load_alike (crates : Crates Pri) (same : SameListed ('/' :: rel) first second) (fuel : Nat) :
    (first.load crates fuel ('/' :: rel)).map Rust.kind = (second.load crates fuel ('/' :: rel)).map Rust.kind := by
  have listed := same names named
  apply kind_thenLoad (loader_alike accepted single named rulesName (listed _ (by simp)) fuel _)
  intro withRules
  apply kind_thenLoad (loader_alike accepted single named linksName (listed _ (by simp)) fuel _)
  intro withLinks
  exact loader_alike accepted single named resesName (listed _ (by simp)) fuel _

theorem loads_agree (crates : Crates Pri) (agree : Agree ('/' :: rel) first second) :
    first.Loads crates ('/' :: rel) ↔ second.Loads crates ('/' :: rel) := by
  rw [first.loads_iff accepted single named, second.loads_iff accepted single named]
  constructor
  · exact fun sound => sound.agree (agree names named)
  · exact fun sound => sound.agree (agree.symm names named)

theorem load_answerAlike [LinearOrder Pri] (agree : Agree ('/' :: rel) first second) {fuel fuel' : Nat}
    (loaded : first.load crates fuel ('/' :: rel) = some (.ok index))
    (loaded' : second.load crates fuel' ('/' :: rel) = some (.ok index')) :
    AnswerAlike (storeOf first.version index) (storeOf second.version index') := by
  choose before keys using fun directory => exists_keys directory single accepted
  obtain ⟨sound, filed⟩ := first.load_filed accepted single named keys loaded
  obtain ⟨-, filed'⟩ := second.load_filed accepted single named keys loaded'
  exact (Filed.sameContent (agree names named) sound filed filed').answerAlike _ _

end Forward

/-! ## Namespaces that do not go down -/

section Bushes

open FileSystem

variable {failure : Option IOError} {entries : Listing} {depth : Nat} {trail parents : List Node} {path : Path}

/-- The tree of a depth whose directories have the same names everywhere. -/
def bushy (failure : Option IOError) (entries : Listing) : Nat → Node
  | 0 => .dir failure ⟨[], List.nodup_nil⟩ fun _ => .file (.error notFound)
  | depth + 1 => .dir failure entries fun _ => bushy failure entries depth

theorem bushy_dir (failure : Option IOError) (entries : Listing) (depth : Nat) :
    ∃ listed child, bushy failure entries depth = .dir failure listed child := by
  cases depth <;> exact ⟨_, _, rfl⟩

theorem bushy_listable (entries : Listing) (depth : Nat) : (bushy none entries depth).Listable := by
  induction depth with
  | zero => exact ⟨rfl, by simp⟩
  | succ depth ih => exact ⟨rfl, fun _ _ => ih⟩

theorem find_bushy {names : List FileName} {node : Node}
    (found : (bushy failure entries depth).find names = some node) : names.length ≤ depth ∧ node.isDir = true := by
  induction names generalizing depth with
  | nil =>
      obtain ⟨listed, child, shape⟩ := bushy_dir failure entries depth
      rw [shape] at found
      cases found
      exact ⟨Nat.zero_le _, rfl⟩
  | cons name names ih =>
      cases depth with
      | zero => simp [bushy, Node.find] at found
      | succ depth =>
          simp only [bushy, Node.find] at found
          split at found
          · obtain ⟨shorter, isDir⟩ := ih found
            exact ⟨Nat.succ_le_succ shorter, isDir⟩
          · cases found

/-- The directories of a trail all have the same names, down to a depth. -/
def Bushes (failure : Option IOError) (entries : Listing) (least : Nat) (trail : List Node) : Prop :=
  ∀ node ∈ trail, ∃ depth, least ≤ depth ∧ node = bushy failure entries depth

theorem Bushes.le {least more : Nat} (bushes : Bushes failure entries more trail) (fewer : least ≤ more) :
    Bushes failure entries least trail := by
  intro node member
  obtain ⟨depth, enough, same⟩ := bushes node member
  exact ⟨depth, fewer.trans enough, same⟩

theorem step_bushes {segment : Str} (bushes : Bushes failure entries 0 trail) {trail' : List Node}
    (stepped : step trail segment = .ok trail') : Bushes failure entries 0 trail' := by
  cases trail with
  | nil => simp [step] at stepped
  | cons node parents =>
      obtain ⟨⟨depth, -, rfl⟩, others⟩ := List.forall_mem_cons.mp bushes
      have top : Bushes failure entries 0 [bushy failure entries depth] :=
        List.forall_mem_singleton.mpr ⟨depth, Nat.zero_le _, rfl⟩
      obtain ⟨listed, child, shape⟩ := bushy_dir failure entries depth
      rw [shape] at stepped
      rw [step] at stepped
      split at stepped
      · cases stepped
        rwa [shape] at bushes
      · split at stepped
        · cases stepped
          split
          · rwa [shape] at top
          · exact others
        · split at stepped
          · cases stepped
            rename_i name sought
            have member := List.mem_of_find?_eq_some sought
            cases depth with
            | zero =>
                cases shape
                cases member
            | succ depth =>
                have bushes' := bushes
                rw [shape] at bushes'
                cases shape
                exact List.forall_mem_cons.mpr ⟨⟨depth, Nat.zero_le _, rfl⟩, bushes'⟩
          · cases stepped

/-- How many names and parents the segments of a path are. -/
def steps (segments : List Str) : Nat := (segments.filter fun segment => !Path.isTrivial segment).length

def Fits (entries : Listing) (segment : Str) : Prop :=
  Path.isTrivial segment = true ∨ segment = ['.', '.'] ∨ ∃ name ∈ entries.val, name.text = segment

theorem step_forward {segment : Str} {least : Nat} (fits : Fits entries segment)
    (bushes : Bushes failure entries (steps [segment] + least) trail) (nonempty : trail ≠ []) :
    ∃ trail', step trail segment = .ok trail' ∧ trail' ≠ [] ∧ Bushes failure entries least trail' := by
  obtain ⟨node, parents, rfl⟩ := List.exists_cons_of_ne_nil nonempty
  have kept : Bushes failure entries least (node :: parents) := bushes.le (Nat.le_add_left _ _)
  obtain ⟨⟨depth, enough, rfl⟩, -⟩ := List.forall_mem_cons.mp bushes
  obtain ⟨⟨listed, child, shape⟩, others⟩ :=
    And.intro (bushy_dir failure entries depth) (List.forall_mem_cons.mp kept).2
  rcases fits with trivial | rfl | ⟨name, member, rfl⟩
  · refine ⟨_, ?_, nonempty, kept⟩
    rw [shape, step, if_pos trivial]
  · have plain : ¬ Path.isTrivial ['.', '.'] = true := by decide
    rw [shape, step, if_neg plain, if_pos rfl]
    refine ⟨_, rfl, ?_⟩
    split
    · refine ⟨by simp, List.forall_mem_singleton.mpr ?_⟩
      rw [← shape]
      exact (List.forall_mem_cons.mp kept).1
    · exact ⟨‹_›, others⟩
  · cases depth with
    | zero => simp [steps, isTrivial_fileName] at enough
    | succ depth =>
        have deeper : least ≤ depth := by
          simp only [steps, isTrivial_fileName, Bool.not_false, List.filter_cons_of_pos, List.filter_nil,
            List.length_singleton] at enough
          omega
        refine ⟨_, ?_, List.cons_ne_nil _ _, List.forall_mem_cons.mpr ⟨⟨depth, deeper, rfl⟩, kept⟩⟩
        rw [bushy, step_name, if_pos member]

theorem follow_bushes {segments : List Str} (fits : ∀ segment ∈ segments, Fits entries segment)
    (bushes : Bushes failure entries (steps segments) trail) (nonempty : trail ≠ []) :
    ∃ depth parents, follow trail segments = .ok (bushy failure entries depth :: parents) := by
  induction segments generalizing trail with
  | nil =>
      obtain ⟨node, parents, rfl⟩ := List.exists_cons_of_ne_nil nonempty
      obtain ⟨depth, -, rfl⟩ := (List.forall_mem_cons.mp bushes).1
      exact ⟨depth, parents, rfl⟩
  | cons segment segments ih =>
      obtain ⟨here, later⟩ := List.forall_mem_cons.mp fits
      have split : steps (segment :: segments) = steps [segment] + steps segments := by
        rw [steps, ← List.singleton_append, List.filter_append, List.length_append]
        rfl
      rw [split] at bushes
      obtain ⟨trail', stepped, nonempty', bushes'⟩ := step_forward here bushes nonempty
      obtain ⟨depth, parents, followed⟩ := ih later bushes' nonempty'
      refine ⟨depth, parents, ?_⟩
      rw [follow, List.foldlM_cons, stepped]
      exact followed

theorem follow_keeps {segments : List Str} (bushes : Bushes failure entries 0 trail) {trail' : List Node}
    (followed : follow trail segments = .ok trail') : Bushes failure entries 0 trail' := by
  induction segments generalizing trail with
  | nil =>
      cases followed
      exact bushes
  | cons segment segments ih =>
      simp only [follow, List.foldlM_cons, bind, Except.bind] at followed
      cases stepped : step trail segment with
      | error cause => simp [stepped] at followed
      | ok next =>
          rw [stepped] at followed
          exact ih (step_bushes bushes stepped) followed

/-! ### Versions of such trees -/

variable (failure entries depth) (listed : loneName ∈ entries.val)

def bushySystem : FileSystem where
  root := bushy failure entries (depth + 1)
  cwd := []

include listed in
theorem bushySystem_resolves :
    (bushySystem failure entries depth).resolve (Path.join ['/'] ['v']) = .ok (bushy failure entries depth) := by
  refine resolve_eq_ok.mpr ⟨by decide, [bushy failure entries (depth + 1)], [bushy failure entries (depth + 1)], rfl, ?_⟩
  have written : Path.segments (Path.join ['/'] ['v']) = [[], loneName.text] := by decide
  have here : ¬ Path.isTrivial loneName.text = true := by decide
  rw [written]
  simp only [follow, List.foldlM_cons, List.foldlM_nil, bushy]
  rw [step, if_pos (by rfl)]
  change (step _ loneName.text >>= pure) = _
  rw [step_name, if_pos listed]
  rfl

/-- A version whose tree is like that. -/
def bushyCheckout : Checkout where
  fs := bushySystem failure entries depth
  files := ⟨['/']⟩
  version := loneVersion
  id := ['v']
  tree := bushy failure entries depth
  named := fromUtf8_toUtf8 _
  resolved := bushySystem_resolves failure entries depth listed

variable {failure entries depth listed}

theorem bushy_nodeAt_iff (absolute : Path.isAbsolute path = true) {node : Node} :
    (bushyCheckout failure entries depth listed).nodeAt path = .ok node ↔
      ∃ parents, follow [bushy failure entries (depth + 1)]
        ([] :: loneName.text :: Path.segments (Path.relativeText path)) = .ok (node :: parents) := by
  have relative := Path.relativeText_not_absolute path
  have joined : Path.join (Path.join ['/'] ['v']) (Path.relativeText path) =
      [] ++ '/' :: (['v'] ++ '/' :: Path.relativeText path) := by
    rw [join_relative (by decide) relative]
    rfl
  have segments : Path.segments (Path.join (Path.join ['/'] ['v']) (Path.relativeText path)) =
      [] :: loneName.text :: Path.segments (Path.relativeText path) := by
    rw [joined, Path.segments_separated, Path.segments_separated]
    rfl
  have started : (bushySystem failure entries depth).start
      (Path.join (Path.join ['/'] ['v']) (Path.relativeText path)) = .ok [bushy failure entries (depth + 1)] := by
    rw [joined]
    rfl
  refine (FilesystemBackend.nodeAt_eq_ok (bushyCheckout failure entries depth listed).named absolute).trans ?_
  change (bushySystem failure entries depth).resolve (Path.join (Path.join ['/'] ['v']) (Path.relativeText path)) =
    .ok node ↔ _
  rw [resolve_eq_ok, started, segments]
  constructor
  · intro ⟨_, trail, parents, same, followed⟩
    cases same
    exact ⟨parents, followed⟩
  · intro ⟨parents, followed⟩
    exact ⟨by rw [joined]; simp, _, parents, rfl, followed⟩

/-- Every path with the names of the trees leads to one of their directories. -/
theorem bushy_nodeAt (absolute : Path.isAbsolute path = true) (fits : ∀ segment ∈ Path.segments path, Fits entries segment)
    (enough : steps (Path.segments path) ≤ depth) :
    ∃ reached, (bushyCheckout failure entries depth listed).nodeAt path = .ok (bushy failure entries reached) := by
  have cut : (Path.segments (Path.relativeText path)).filter (fun segment => !Path.isTrivial segment) =
      (Path.segments path).filter fun segment => !Path.isTrivial segment := by
    rw [← Path.filter_trimSegments (Path.segments path)]
    rcases Path.segments_relativeText path with same | ⟨empty, same⟩
    · rw [same]
    · rw [same, empty]
      rfl
  have fits' : ∀ segment ∈ [] :: loneName.text :: Path.segments (Path.relativeText path), Fits entries segment := by
    refine List.forall_mem_cons.mpr ⟨.inl rfl, List.forall_mem_cons.mpr ⟨.inr (.inr ⟨loneName, listed, rfl⟩), ?_⟩⟩
    intro segment member
    cases trivial : Path.isTrivial segment with
    | true => exact .inl trivial
    | false =>
        have proper : segment ∈ (Path.segments (Path.relativeText path)).filter fun segment => !Path.isTrivial segment :=
          List.mem_filter.mpr ⟨member, by simp [trivial]⟩
        rw [cut] at proper
        exact fits segment (List.mem_filter.mp proper).1
  have bushes : Bushes failure entries (steps ([] :: loneName.text :: Path.segments (Path.relativeText path)))
      [bushy failure entries (depth + 1)] := by
    have counted : steps ([] :: loneName.text :: Path.segments (Path.relativeText path)) =
        steps (Path.segments path) + 1 := by
      rw [steps, List.filter_cons_of_neg (by decide), List.filter_cons_of_pos (by decide), cut]
      rfl
    rw [counted]
    exact List.forall_mem_singleton.mpr ⟨depth + 1, Nat.succ_le_succ enough, rfl⟩
  obtain ⟨reached, parents, followed⟩ := follow_bushes fits' bushes (List.cons_ne_nil _ _)
  exact ⟨reached, (bushy_nodeAt_iff absolute).mpr ⟨parents, followed⟩⟩

theorem bushy_nodeAt_dir (absolute : Path.isAbsolute path = true) {node : Node}
    (found : (bushyCheckout failure entries depth listed).nodeAt path = .ok node) :
    ∃ names child, node = .dir failure names child := by
  obtain ⟨parents, followed⟩ := (bushy_nodeAt_iff absolute).mp found
  have bushes := follow_keeps (List.forall_mem_singleton.mpr ⟨depth + 1, Nat.zero_le _, rfl⟩) followed
  obtain ⟨⟨reached, -, rfl⟩, -⟩ := List.forall_mem_cons.mp bushes
  exact bushy_dir failure entries reached

end Bushes

/-! ## Exactly the namespaces that go down are isolated -/

section Isolation

variable {entries : Listing} {depth : Nat} {listed : loneName ∈ entries.val}

/-- A loader succeeds where the path that it walks over leads to a directory without files. -/
theorem bushy_loader_succeeds {Obj : Type} {decode : Bytes → Except DataLoaderError Obj}
    {add : CFGIndex Pri → Str → Obj → Option (CFGIndex Pri)}
    (accepted : CFGCenterInner.validNamespace ('/' :: rel) = true) (directory : FileName)
    (fits : ∀ segment ∈ Path.segments (Path.join ('/' :: directory.text) rel), Fits entries segment)
    (enough : steps (Path.segments (Path.join ('/' :: directory.text) rel)) ≤ depth) (index : CFGIndex Pri) :
    ∃ enough index', ∀ fuel, enough ≤ fuel →
      loadObjects (bushyCheckout none entries depth listed).backend directory.text decode add fuel ('/' :: rel)
        (bushyCheckout none entries depth listed).version index = some (.ok index') := by
  obtain ⟨reached, located⟩ := bushy_nodeAt (walk_absolute directory rel) fits enough
  refine loadObjects_at_succeeds accepted located (readable_loneTree.mpr ⟨?_, bushy_listable entries reached, ?_⟩) index
  · obtain ⟨names, child, shape⟩ := bushy_dir none entries reached
    rw [shape]
    rfl
  · intro path content found
    exact absurd (find_bushy found).2 (by simp [Node.isDir])

theorem unlistable_not_loads (crates : Crates Pri) (cause : IOError) (rel : Path) :
    ¬ (bushyCheckout (some cause) entries depth listed).Loads crates ('/' :: rel) := by
  intro ⟨fuel, index, loaded⟩
  obtain ⟨withRules, rulesLoaded, -⟩ := thenLoad_eq_ok.mp loaded
  have objects : loadObjects (bushyCheckout (some cause) entries depth listed).backend rulesName.text
      (Rule.loadFromSlice crates) CFGIndex.addRule fuel ('/' :: rel)
      (bushyCheckout (some cause) entries depth listed).version .empty = some (.ok withRules) := rulesLoaded
  obtain ⟨node, located⟩ := loadObjects_found objects
  obtain ⟨names, child, rfl⟩ := bushy_nodeAt_dir (walk_absolute rulesName rel) located
  rw [Checkout.backend, loadObjects_unlisted (FilesystemBackend.listDir_failure located)] at objects
  split at objects <;> cases objects

/-- Names that fit all segments of a namespace. -/
theorem exists_entries (ns : Str) : ∃ entries : Listing,
    (∀ name ∈ [loneName, rulesName, linksName, resesName], name ∈ entries.val) ∧
    ∀ segment ∈ Path.segments ns, Fits entries segment := by
  have plain : ∃ names : List FileName, names.map FileName.text =
      (Path.segments ns).filter fun segment => !Path.isTrivial segment && segment != ['.', '.'] := by
    apply exists_names
    intro segment member
    obtain ⟨member, proper⟩ := List.mem_filter.mp member
    simp only [Path.isTrivial, Bool.and_eq_true, Bool.not_eq_true', Bool.or_eq_false_iff, beq_eq_false_iff_ne,
      bne_iff_ne] at proper
    exact ⟨proper.1.1, Path.segment_plain ns segment member, proper.1.2, proper.2⟩
  obtain ⟨names, written⟩ := plain
  refine ⟨⟨([loneName, rulesName, linksName, resesName] ++ names).dedup, List.nodup_dedup _⟩, ?_, ?_⟩
  · intro name member
    exact List.mem_dedup.mpr (List.mem_append_left _ member)
  · intro segment member
    by_cases trivial : Path.isTrivial segment = true
    · exact .inl trivial
    · by_cases parent : segment = ['.', '.']
      · exact .inr (.inl parent)
      · have kept : segment ∈ names.map FileName.text := by
          rw [written]
          exact List.mem_filter.mpr ⟨member, by simp [trivial, parent]⟩
        obtain ⟨name, listed, same⟩ := List.mem_map.mp kept
        exact .inr (.inr ⟨name, List.mem_dedup.mpr (List.mem_append_right _ listed), same⟩)

/-- How deep the paths of a namespace go. -/
def depthOf (rel : Path) : Nat := steps (Path.segments rel) + if Path.isAbsolute rel = true then 0 else 1

theorem walk_fits {directory : FileName} (known : directory ∈ entries.val)
    (fits : ∀ segment ∈ Path.segments rel, Fits entries segment) :
    (∀ segment ∈ Path.segments (Path.join ('/' :: directory.text) rel), Fits entries segment) ∧
      steps (Path.segments (Path.join ('/' :: directory.text) rel)) ≤ depthOf rel := by
  cases absolute : Path.isAbsolute rel with
  | true =>
      rw [join_replaced _ absolute]
      exact ⟨fits, Nat.le_add_right _ _⟩
  | false =>
      rw [segments_walk directory absolute]
      constructor
      · exact List.forall_mem_cons.mpr ⟨.inl rfl, List.forall_mem_cons.mpr ⟨.inr (.inr ⟨directory, known, rfl⟩), fits⟩⟩
      · rw [steps, List.filter_cons_of_neg (by decide), List.filter_cons_of_pos (by simp [isTrivial_fileName]),
          depthOf, if_neg (by simp [absolute])]
        exact Nat.le_refl _

variable [LinearOrder Pri]

/-- Versions that agree on the directories of the namespace load alike and answer alike,
whatever else is in them and around them. -/
def Isolated (crates : Crates Pri) (ns : Str) : Prop :=
  ∀ first second : Checkout,
    (SameListed ns first second → ∀ fuel,
      (first.load crates fuel ns).map Rust.kind = (second.load crates fuel ns).map Rust.kind) ∧
    (Agree ns first second → (first.Loads crates ns ↔ second.Loads crates ns) ∧
      ∀ fuel fuel' index index', first.load crates fuel ns = some (.ok index) →
        second.load crates fuel' ns = some (.ok index') →
        AnswerAlike (storeOf first.version index) (storeOf second.version index'))

theorem not_isolated (crates : Crates Pri) (accepted : CFGCenterInner.validNamespace ns = true)
    (leaves : ¬ Descends ns) : ¬ Isolated crates ns := by
  obtain ⟨rel, rfl⟩ := exists_relative accepted
  obtain ⟨entries, known, fits⟩ := exists_entries ('/' :: rel)
  have below : ∀ segment ∈ Path.segments rel, Fits entries segment := by
    intro segment member
    apply fits
    rw [← List.nil_append ('/' :: rel), Path.segments_separated]
    exact List.mem_append_right _ member
  have listed : loneName ∈ entries.val := known _ (by simp)
  let empty := bushyCheckout none entries (depthOf rel) listed
  let closed := bushyCheckout (some FileSystem.notFound) entries 0 listed
  have loads : empty.Loads crates ('/' :: rel) := by
    have succeeds : ∀ {Obj : Type} {decode : Bytes → Except DataLoaderError Obj}
        {add : CFGIndex Pri → Str → Obj → Option (CFGIndex Pri)} (directory : FileName),
        directory ∈ entries.val → ∀ index, ∃ enough index', ∀ fuel, enough ≤ fuel →
          loadObjects empty.backend directory.text decode add fuel ('/' :: rel) empty.version index =
            some (.ok index') := by
      intro Obj decode add directory member
      obtain ⟨fits, enough⟩ := walk_fits member below
      exact bushy_loader_succeeds accepted directory fits enough
    exact load_of_loaders (succeeds rulesName (known _ (by simp))) (succeeds linksName (known _ (by simp)))
      (succeeds resesName (known _ (by simp)))
  -- Neither tree has the directories of the namespace.
  have agree : Agree ('/' :: rel) empty closed := by
    intro names named directory _
    have absolute : Path.isAbsolute rel = true := by
      by_contra relative
      exact leaves ⟨fun double => relative (walk_replaced double), named.noParent⟩
    have missing : empty.tree.find (directory :: names) = none := by
      by_contra present
      obtain ⟨node, found⟩ := Option.ne_none_iff_exists'.mp present
      have shorter := (find_bushy found).1
      have counted := congrArg List.length named
      rw [List.length_map, ← List.nil_append ('/' :: rel), Path.segments_separated, List.filter_append] at counted
      have short : names.length = steps (Path.segments rel) := counted
      rw [List.length_cons, depthOf, if_pos absolute] at shorter
      omega
    have missing' : closed.tree.find (directory :: names) = none := by
      simp [closed, bushyCheckout, bushy, Node.find]
    exact ⟨by simp [Walkable, missing, missing'], fun path content => by
      rw [Node.find_append, Node.find_append, missing, missing']⟩
  intro isolated
  exact unlistable_not_loads crates _ rel (((isolated empty closed).2 agree).1.mp loads)

/-- The namespaces that are isolated are exactly those that go down. -/
theorem load_isolated_iff (crates : Crates Pri) (ns : Str) (accepted : CFGCenterInner.validNamespace ns = true) :
    Isolated crates ns ↔ ¬ ['/', '/'] <+: ns ∧ ['.', '.'] ∉ Path.segments ns := by
  constructor
  · intro isolated
    by_contra leaves
    exact not_isolated crates accepted leaves isolated
  · intro ⟨single, noParent⟩ first second
    obtain ⟨rel, rfl⟩ := exists_relative accepted
    obtain ⟨names, named⟩ := exists_namedBy noParent
    constructor
    · exact fun same fuel => load_alike accepted single named crates same fuel
    · intro agree
      exact ⟨loads_agree accepted single named crates agree, fun fuel fuel' index index' loaded loaded' =>
        load_answerAlike accepted single named agree loaded loaded'⟩

theorem load_isolated_iff_sample : Isolated sampleCrates ['/'] :=
  (load_isolated_iff sampleCrates ['/'] rfl).mpr ⟨by decide, by decide⟩

/-! ### A file beside the directories of the loaders -/

def topNames : Listing := ⟨[rulesName, linksName, resesName], directories_nodup⟩

/-- The directories of the loaders, without files, and beside them a file that cannot be read. -/
def strayTree : Node :=
  .dir none ⟨strayName :: topNames.val, by decide⟩ fun name =>
    if name = strayName then .file (.error FileSystem.notFound) else bushy none topNames 0

def versionOf (tree : Node) : Checkout where
  fs := { root := .dir none ⟨[loneName], List.nodup_singleton loneName⟩ fun _ => tree, cwd := [] }
  files := ⟨['/']⟩
  version := loneVersion
  id := ['v']
  tree := tree
  named := fromUtf8_toUtf8 _
  resolved := rfl

def parentNamespace : Str := "/../".toList

theorem parent_leads_out {directory : FileName} (member : directory ∈ topNames.val) :
    (versionOf (bushy none topNames 1)).nodeAt (Path.join ('/' :: directory.text) "../".toList) =
      .ok (bushy none topNames 1) ∧
    (versionOf strayTree).nodeAt (Path.join ('/' :: directory.text) "../".toList) = .ok strayTree := by
  have absolute := walk_absolute directory "../".toList
  have resolves : ∀ tree ∈ [bushy none topNames 1, strayTree],
      (versionOf tree).fs.resolve (Path.join (Path.join ['/'] ['v'])
        (Path.relativeText (Path.join ('/' :: directory.text) "../".toList))) = .ok tree := by
    simp only [topNames, List.mem_cons, List.not_mem_nil, or_false] at member
    rcases member with rfl | rfl | rfl <;> exact List.forall_mem_cons.mpr ⟨rfl, List.forall_mem_singleton.mpr rfl⟩
  exact ⟨(FilesystemBackend.nodeAt_eq_ok (versionOf (bushy none topNames 1)).named absolute).mpr
      (resolves _ (by simp)),
    (FilesystemBackend.nodeAt_eq_ok (versionOf strayTree).named absolute).mpr (resolves _ (by simp))⟩

omit [LinearOrder Pri] in
theorem parent_loads (crates : Crates Pri) :
    (versionOf (bushy none topNames 1)).Loads crates parentNamespace := by
  have succeeds : ∀ {Obj : Type} {decode : Bytes → Except DataLoaderError Obj}
      {add : CFGIndex Pri → Str → Obj → Option (CFGIndex Pri)} (directory : FileName), directory ∈ topNames.val →
      ∀ index, ∃ enough index', ∀ fuel, enough ≤ fuel →
        loadObjects (versionOf (bushy none topNames 1)).backend directory.text decode add fuel parentNamespace
          (versionOf (bushy none topNames 1)).version index = some (.ok index') := by
    intro Obj decode add directory member
    refine loadObjects_at_succeeds rfl (parent_leads_out member).1
      (readable_loneTree.mpr ⟨rfl, bushy_listable topNames 1, fun path content found => ?_⟩)
    exact absurd (find_bushy found).2 (by simp [Node.isDir])
  exact load_of_loaders (succeeds rulesName (by simp [topNames])) (succeeds linksName (by simp [topNames]))
    (succeeds resesName (by simp [topNames]))

omit [LinearOrder Pri] in
theorem parent_not_loads (crates : Crates Pri) : ¬ (versionOf strayTree).Loads crates parentNamespace := by
  intro ⟨fuel, index, loaded⟩
  obtain ⟨withRules, rulesLoaded, -⟩ := thenLoad_eq_ok.mp loaded
  have objects : loadObjects (versionOf strayTree).backend rulesName.text (Rule.loadFromSlice crates)
      CFGIndex.addRule fuel parentNamespace (versionOf strayTree).version .empty = some (.ok withRules) := rulesLoaded
  have located := (@parent_leads_out rulesName (by simp [topNames])).2
  have readable := (loadObjects_at_ok rfl located objects).1
  obtain ⟨bytes, read, -⟩ := (readable_loneTree.mp readable).2.2 [strayName] (.error FileSystem.notFound)
    (by simp [strayTree, Node.find])
  cases read

/-- The version with the file does not load, the one without does. -/
theorem load_parent_leaks :
    CFGCenterInner.validNamespace parentNamespace = true ∧
    Agree parentNamespace (versionOf (bushy none topNames 1)) (versionOf strayTree) ∧
    (versionOf (bushy none topNames 1)).Loads sampleCrates parentNamespace ∧
    ¬ (versionOf strayTree).Loads sampleCrates parentNamespace ∧ ¬ Isolated sampleCrates parentNamespace := by
  have agree : Agree parentNamespace (versionOf (bushy none topNames 1)) (versionOf strayTree) :=
    fun names named => absurd (show ['.', '.'] ∈ Path.segments parentNamespace by decide) named.noParent
  refine ⟨rfl, agree, parent_loads _, parent_not_loads _, fun isolated => ?_⟩
  exact parent_not_loads sampleCrates (((isolated _ _).2 agree).1.mp (parent_loads _))

end Isolation

end Eafcc.CfgCenter
