import Eafcc.CfgCenter.Files
import Eafcc.CfgCenter.UpdateHistory
import Eafcc.Whoami

namespace Eafcc.CfgCenter

open Eafcc.RuleEngine Eafcc.Model Eafcc.Storage Eafcc.Ffi Transition

/-! # What clients of the library are told

The tree of a version never changes.  However many threads create namespaces and
process events, each query of a client is answered by the files of one version that
was current at the start or published since.
-/

variable {Pri : Type} {crates : Crates Pri}

/-! ## Snapshots of trees -/

/-- What the calls load is loaded from the trees of the versions. -/
def Answers.From (tree : VersionItem → Node) (answers : Answers crates) : Prop :=
  ∀ ns version store, answers.memStorageNew ns version = .ok store → ∃ backend hash fuel,
    Storage.Serves backend version (tree version) hash ∧
    MemStorage.new crates backend fuel ns version = some (.ok store)

/-- The snapshot of a namespace holds the files of a known version. -/
structure Reflects (crates : Crates Pri) (tree : VersionItem → Node) (known : VersionItem → Prop)
    (ns : Str) (store : MemStorage Pri) : Prop where
  known : known store.version
  files : ∀ names, ns = namespaceText names → Loaded crates (tree store.version) names store.indices

def NamespaceScopedCFGCenter.Reflects (crates : Crates Pri) (tree : VersionItem → Node)
    (known : VersionItem → Prop) (handle : NamespaceScopedCFGCenter Pri) : Prop :=
  CfgCenter.Reflects crates tree known handle.namespaceName handle.currentMemstore ∧
  ∀ differ ∈ handle.called, CfgCenter.Reflects crates tree known handle.namespaceName differ.oldMemStore ∧
    CfgCenter.Reflects crates tree known handle.namespaceName differ.newMemStore

def Action.From (tree : VersionItem → Node) : Action crates → Prop
  | .createLoad _ answers => answers.From tree
  | .load _ _ _ answers => answers.From tree
  | _ => True

/-- Snapshots that a thread is about to put into a handle, with their namespaces. -/
def Thread.snapshots : Thread Pri → List (Str × MemStorage Pri)
  | .createLock handle => [(handle.namespaceName, handle.currentMemstore)]
  | .createInsert handle => [(handle.namespaceName, handle.currentMemstore)]
  | .updateInstall _ entry newMemStore _ _ => [(entry.1, newMemStore)]
  | _ => []

/-- The handle that a thread is about to insert was not called yet. -/
def Thread.Fresh : Thread Pri → Prop
  | .createLock handle => handle.called = []
  | .createInsert handle => handle.called = []
  | _ => True

def Thread.versions : Thread Pri → List VersionItem
  | .update e => [e.newVersion]
  | .updateLock e => [e.newVersion]
  | .updateLoop e _ => [e.newVersion]
  | .updateInstall e _ _ _ _ => [e.newVersion]
  | _ => []

section Steps

variable {tree : VersionItem → Node} {known : VersionItem → Prop} {center center' : CFGCenterInner Pri}
  {thread next : Thread Pri} {action : Action crates} {handle : NamespaceScopedCFGCenter Pri}
  {s s' : State Pri} {ns : Str} {version : VersionItem} {store : MemStorage Pri}

theorem Answers.From.reflects {answers : Answers crates} (genuine : answers.From tree)
    (loaded : answers.memStorageNew ns version = .ok store) (here : known version) :
    Reflects crates tree known ns store := by
  have same := answers.version_eq loaded
  obtain ⟨backend, hash, fuel, serves, loads⟩ := genuine ns version store loaded
  refine ⟨by rwa [same], fun names named => ?_⟩
  obtain ⟨result, built, stored⟩ := Option.map_eq_some_iff.mp loads
  cases result with
  | error failure => cases stored
  | ok index =>
      cases stored
      rw [named] at built
      exact load_loaded serves built

theorem loadChanged_loads {answers : Answers crates} {level : UpdateNotifyLevel}
    {oldVersion newVersion : VersionItem} {changes : List Str}
    (loads : CFGCenterInner.loadChanged answers level oldVersion newVersion ns = some (store, changes)) :
    answers.memStorageNew ns newVersion = .ok store := by
  cases level with
  | noNotify => cases loads
  | notifyWithoutChangedKeysByGlobal =>
      simp only [CFGCenterInner.loadChanged] at loads
      split at loads
      · rename_i loaded
        cases loads
        exact loaded
      · cases loads
  | notifyWithoutChangedKeysInNamespace =>
      simp only [CFGCenterInner.loadChanged] at loads
      split at loads
      · cases loads
      · split at loads
        · cases loads
        · split at loads
          · rename_i loaded
            cases loads
            exact loaded
          · cases loads
  | notifyWithMaybeChangedKeys =>
      simp only [CFGCenterInner.loadChanged] at loads
      split at loads
      · cases loads
      · split at loads
        · cases loads
        · split at loads <;> cases loads

/-- What a step makes a thread hold it held before, or it has just loaded it. -/
theorem Moves.snapshots (moves : Moves crates center thread action next center') (genuine : action.From tree)
    (current : known center.currentVersion) (versions : ∀ version ∈ thread.versions, known version)
    (held : ∀ entry ∈ thread.snapshots, Reflects crates tree known entry.1 entry.2) :
    ∀ entry ∈ next.snapshots, Reflects crates tree known entry.1 entry.2 := by
  cases moves with
  | createLoad loaded =>
      intro entry member
      obtain rfl := List.mem_singleton.mp member
      exact genuine.reflects loaded current
  | createLock => exact held
  | updateLoad stored loads =>
      intro entry member
      obtain rfl := List.mem_singleton.mp member
      exact genuine.reflects (loadChanged_loads loads) (versions _ (List.mem_singleton_self _))
  | _ =>
      intro entry member
      cases member

theorem Moves.fresh (moves : Moves crates center thread action next center') (fresh : thread.Fresh) :
    next.Fresh := by
  cases moves with
  | createLoad => rfl
  | createLock => exact fresh
  | _ => trivial

theorem Moves.versions (moves : Moves crates center thread action next center')
    (versions : ∀ version ∈ thread.versions, known version)
    (called : ∀ e, action = .call (.update e) → known e.newVersion) :
    ∀ version ∈ next.versions, known version := by
  cases moves with
  | callUpdate =>
      intro version member
      obtain rfl := List.mem_singleton.mp member
      exact called _ rfl
  | update => exact versions
  | updateLock => exact versions
  | updateSkip => exact versions
  | updateLoad => exact versions
  | updateInstall => exact versions
  | _ =>
      intro version member
      cases member

theorem Moves.currentVersion_known (moves : Moves crates center thread action next center')
    (current : known center.currentVersion) (versions : ∀ version ∈ thread.versions, known version) :
    known center'.currentVersion := by
  cases moves with
  | updateEnd => exact versions _ (List.mem_singleton_self _)
  | _ => exact current

theorem NamespaceScopedCFGCenter.Reflects.updateCallback (reflects : handle.Reflects crates tree known)
    (loaded : CfgCenter.Reflects crates tree known handle.namespaceName store) (changes : List Str) :
    (handle.updateCallback store changes).Reflects crates tree known := by
  unfold NamespaceScopedCFGCenter.updateCallback
  cases handle.notifyLevel with
  | noNotify => exact reflects
  | notifyWithoutChangedKeysInNamespace => exact ⟨loaded, reflects.2⟩
  | notifyWithMaybeChangedKeys => exact ⟨loaded, reflects.2⟩
  | notifyWithoutChangedKeysByGlobal =>
      dsimp only
      split
      · refine ⟨loaded, fun differ called => ?_⟩
        rcases List.mem_append.mp called with earlier | last
        · exact reflects.2 differ earlier
        · obtain rfl := List.mem_singleton.mp last
          exact ⟨reflects.1, loaded⟩
      · exact ⟨loaded, reflects.2⟩

theorem Moves.handles (moves : Moves crates center thread action next center')
    (work : thread.Working crates center) (fresh : thread.Fresh)
    (held : ∀ entry ∈ thread.snapshots, CfgCenter.Reflects crates tree known entry.1 entry.2)
    (stored : ∀ handle ∈ center.handles, handle.Reflects crates tree known) :
    ∀ handle ∈ center'.handles, handle.Reflects crates tree known := by
  cases moves with
  | createInsert =>
      intro handle member
      rcases List.mem_append.mp member with earlier | last
      · exact stored handle earlier
      · obtain rfl := List.mem_singleton.mp last
        have uncalled : handle.called = [] := fresh
        exact ⟨held _ (List.mem_singleton_self _), by simp [uncalled]⟩
  | @updateInstall e ns id rest newMemStore changes =>
      obtain ⟨filed, there, named⟩ := center.filed ns id (work.1.2 (ns, id) List.mem_cons_self)
      have loaded := held _ (List.mem_singleton_self _)
      intro handle member
      obtain ⟨place, found⟩ := List.mem_iff_getElem?.mp member
      rw [CFGCenterInner.install, List.getElem?_modify] at found
      obtain ⟨before, was, same⟩ := Option.map_eq_some_iff.mp found
      have kept := stored before (List.mem_of_getElem? was)
      by_cases own : id = place
      · subst own
        cases there.symm.trans was
        rw [if_pos rfl] at same
        rw [← same]
        exact kept.updateCallback (by rwa [named]) changes
      · rw [if_neg own] at same
        exact same ▸ kept
  | _ => exact stored

/-- What holds in every state while the trees of the versions stay as they are. -/
structure State.Reflects (crates : Crates Pri) (tree : VersionItem → Node) (known : VersionItem → Prop)
    (s : State Pri) : Prop where
  valid : s.Valid crates
  current : known s.center.currentVersion
  versions : ∀ t, ∀ version ∈ (s.threads t).versions, known version
  snapshots : ∀ t, ∀ entry ∈ (s.threads t).snapshots, CfgCenter.Reflects crates tree known entry.1 entry.2
  fresh : ∀ t, (s.threads t).Fresh
  handles : ∀ handle ∈ s.center.handles, handle.Reflects crates tree known

theorem State.Reflects.step {label : Nat × Action crates} (reflects : s.Reflects crates tree known)
    (taken : Step crates s label s') (genuine : label.2.From tree)
    (called : ∀ e, label.2 = .call (.update e) → known e.newVersion) : s'.Reflects crates tree known := by
  have valid := taken.valid reflects.valid
  cases taken with
  | @run t action next center moves permitted =>
      have others : ∀ P : Thread Pri → Prop, (∀ u, P (s.threads u)) → P next →
          ∀ u, P (Function.update s.threads t next u) := by
        intro P all own u
        by_cases same : u = t
        · subst same
          rwa [Function.update_self]
        · rw [Function.update_of_ne same]
          exact all u
      exact {
        valid
        current := moves.currentVersion_known reflects.current (reflects.versions t)
        versions := others (fun thread => ∀ version ∈ thread.versions, known version) reflects.versions
          (moves.versions (reflects.versions t) called)
        snapshots := others (fun thread => ∀ entry ∈ thread.snapshots,
            CfgCenter.Reflects crates tree known entry.1 entry.2) reflects.snapshots
          (moves.snapshots genuine reflects.current (reflects.versions t) (reflects.snapshots t))
        fresh := others Thread.Fresh reflects.fresh (moves.fresh (reflects.fresh t))
        handles := moves.handles (reflects.valid.working t) (reflects.fresh t) (reflects.snapshots t)
          reflects.handles }

/-- The version that the center started with, or one of an event that was passed to it. -/
def Published (version : VersionItem) (steps : Steps crates) (other : VersionItem) : Prop :=
  other = version ∨ ∃ taken ∈ steps, ∃ t e, taken.label = (t, .call (.update e)) ∧ e.newVersion = other

theorem State.reflects_of_run {steps : Steps crates} (run : Run (Step crates) (.start version) steps s)
    (genuine : ∀ taken ∈ steps, taken.label.2.From tree) :
    s.Reflects crates tree (Published version steps) := by
  have allowed : ∀ taken ∈ steps, taken.label.2.From tree ∧
      ∀ e, taken.label.2 = .call (.update e) → Published version steps e.newVersion := by
    intro taken member
    refine ⟨genuine taken member, fun e called => .inr ⟨taken, member, taken.label.1, e, ?_, rfl⟩⟩
    rw [← called]
  have start : (State.start version).Reflects crates tree (Published version steps) := {
    valid := State.start_valid crates version
    current := .inl rfl
    versions := fun _ _ member => (by cases member)
    snapshots := fun _ _ member => (by cases member)
    fresh := fun _ => trivial
    handles := fun _ member => (by cases member) }
  exact (run.forall_of (State.Reflects crates tree (Published version steps)) allowed start
    (fun _ _ _ holds taken here => holds.step taken here.1 here.2)
    (P := fun _ => True) fun _ _ _ _ _ _ => trivial).1

end Steps

/-! ## C clients -/

/-- What a call gets for its keys: the values of the results that answer each in turn, or a
null pointer where a key is not UTF-8 or a text of a result has a NUL. -/
inductive Conveyed (answer : Str → List (CFGResult Pri)) (keys : List CText) :
    Rust FFIError (List (ConfigValue Pri)) → Prop
  | values {texts : List Str} :
      keys = texts.map utf8Bytes → (∀ result ∈ texts.flatMap answer, ¬ Unsayable result) →
      Conveyed answer keys (.ok ((texts.flatMap answer).map configValueOf))
  | unsayable {texts : List Str} {result : CFGResult Pri} :
      keys = texts.map utf8Bytes → result ∈ texts.flatMap answer → Unsayable result →
      Conveyed answer keys (.error (.error .stringConvertNulError))
  | unread {key : CText} :
      key ∈ keys → (∀ text, utf8Bytes text ≠ key) →
      Conveyed answer keys (.error (.error .stringConvertUtf8Error))

theorem getConfig_conveyed {get : List Str → Option (List (CFGResult Pri))}
    {answer : Str → List (CFGResult Pri)} (asked : ∀ texts, get texts = some (texts.flatMap answer))
    (keys : List CText) : Conveyed answer keys (getConfig get keys) := by
  unfold getConfig
  rcases convertGetCfgInputValue_cases keys with ⟨texts, same, read⟩ | ⟨⟨key, member, bad⟩, failed⟩
  · simp only [read, lift, bind, Except.bind, asked]
    rw [convertGetCfgOutputValue]
    rcases Converts.mapM convertResult_converts (texts.flatMap answer) with
      ⟨⟨result, member, bad⟩, failed⟩ | ⟨good, converted⟩
    · rw [failed]
      exact .unsayable same member bad
    · rw [converted]
      exact .values same fun result member bad => good ⟨result, member, bad⟩
  · simp only [failed, lift, bind, Except.bind]
    exact .unread member bad

/-- Whatever a client asks for, with tags read from a text, it is told for each key in turn what
the files of one known version say. `get` is the query that the call passes the keys to. -/
def Tells [LinearOrder Pri] (crates : Crates Pri) (tree : VersionItem → Node) (known : VersionItem → Prop)
    (ns : List FileName) (store : MemStorage Pri)
    (get : SortUnstableBy Pri → List IdxRuleItem → MatchContext → List Str → ViewMode → Bool →
      Option (List (CFGResult Pri))) : Prop :=
  ∀ (sort : SortUnstableBy Pri) (rules : List IdxRuleItem) (tags : CText) (keys : List CText)
    (viewMode : ViewMode) (needExplain : Bool),
    SortsByPriority sort → store.indices.ruleStor.Iteration rules →
    ∃ served, known served ∧ ∃ answer : Str → List (CFGResult Pri),
      (∀ key, Told crates (tree served) ns (newWhoami tags) needExplain key viewMode (answer key)) ∧
      Conveyed answer keys
        (getConfig (fun texts => get sort rules (newWhoami tags) texts viewMode needExplain) keys)

theorem Reflects.tells [LinearOrder Pri] {tree : VersionItem → Node} {known : VersionItem → Prop}
    {ns : List FileName} {store : MemStorage Pri}
    (reflects : Reflects crates tree known (namespaceText ns) store) :
    Tells crates tree known ns store fun sort => Querier.get sort store := by
  intro sort rules tags keys viewMode needExplain sorts order
  obtain ⟨answer, asked, told⟩ : ∃ answer : Str → List (CFGResult Pri),
      (∀ keys, Querier.get sort store rules (newWhoami tags) keys viewMode needExplain =
        some (keys.flatMap answer)) ∧
      ∀ key, Told crates (tree store.version) ns (newWhoami tags) needExplain key viewMode (answer key) :=
    (reflects.files ns rfl).get_told sorts order viewMode
  exact ⟨store.version, reflects.known, answer, told, getConfig_conveyed asked keys⟩

/-- Whatever threads do to the center, every query of a handle, and every query of the old and
the new side that a callback was given, is answered by the files of one published version. -/
theorem client_answers [LinearOrder Pri] (crates : Crates Pri) (tree : VersionItem → Node)
    (version : VersionItem) (steps : Steps crates) (s : State Pri)
    (run : Run (Step crates) (.start version) steps s) (genuine : ∀ taken ∈ steps, taken.label.2.From tree)
    (id : Nat) (handle : NamespaceScopedCFGCenter Pri) (stored : s.center.handles[id]? = some handle)
    (ns : List FileName) (named : handle.namespaceName = namespaceText ns) :
    Tells crates tree (Published version steps) ns handle.currentMemstore handle.getCfg ∧
    ∀ differ ∈ handle.called,
      Tells crates tree (Published version steps) ns differ.oldMemStore differ.getFromOld ∧
      Tells crates tree (Published version steps) ns differ.newMemStore differ.getFromNew := by
  obtain ⟨current, called⟩ := (State.reflects_of_run run genuine).handles handle (List.mem_of_getElem? stored)
  rw [named] at current called
  exact ⟨current.tells, fun differ member => ⟨(called differ member).1.tells, (called differ member).2.tells⟩⟩

/-! ### One create call over the sample files -/

section Sample

/-- What finds no files and fails is loaded from any trees. -/
theorem Answers.from_withoutFiles {tree : VersionItem → Node} :
    (Answers.withoutFiles crates (fun _ _ _ => .ok []) fun _ _ => true).From tree := by
  intro ns version store loaded
  simp only [Answers.withoutFiles, if_true] at loaded
  split at loaded <;> cases loaded

theorem Answers.From.withStore {tree : VersionItem → Node} {answers : Answers crates}
    (genuine : answers.From tree) {ns : Str} {version : VersionItem} {store : MemStorage Pri}
    {backend : StorageBackend} {hash : List FileName → ObjectID} {fuel : Nat}
    (serves : Storage.Serves backend version (tree version) hash)
    (loads : MemStorage.new crates backend fuel ns version = some (.ok store)) :
    (answers.withStore ns version store ⟨backend, fuel, loads⟩).From tree := by
  intro other wanted store' loaded
  simp only [Answers.withStore] at loaded
  split at loaded
  · rename_i same
    obtain ⟨rfl, rfl⟩ := same
    cases loaded
    exact ⟨backend, hash, fuel, serves, loads⟩
  · exact genuine other wanted store' loaded

theorem memStorage_of_load {backend : StorageBackend} {fuel : Nat} {version : VersionItem}
    {index : CFGIndex Pri} (loads : IndexBuilder.load crates backend fuel (namespaceText []) version =
      some (.ok index)) :
    MemStorage.new crates backend fuel ['/'] version = some (.ok (storeOf version index)) := by
  have named : namespaceText [] = ['/'] := rfl
  rw [named] at loads
  rw [MemStorage.new, loads]
  rfl

/-- Calls that load the namespace `/` of the sample, and cannot list any other. -/
def sampleLoading (fuel : Nat) (index : CFGIndex Nat)
    (loads : MemStorage.new sampleCrates sampleBackend fuel ['/'] sampleVersion =
      some (.ok (storeOf sampleVersion index))) : Answers sampleCrates :=
  (Answers.withoutFiles sampleCrates (fun _ _ _ => .ok []) fun _ _ => true).withStore ['/'] sampleVersion
    (storeOf sampleVersion index) ⟨sampleBackend, fuel, loads⟩

theorem sampleOffer : Offers sampleCrates sampleRoot [] (newWhoami (utf8Bytes ['a', '=', '1'])) ['k']
    ⟨1, false, samplePair 'v'⟩ := by
  have tags : newWhoami (utf8Bytes ['a', '=', '1']) = sampleContext := by
    rw [newWhoami, toStringLossy_utf8Bytes]
    rfl
  rw [tags]
  have rule : FileOf (Rule.loadFromSlice sampleCrates) sampleRoot rulesName [] [ruleFile] sampleRule :=
    ⟨_, rfl, sampleRule_decoded⟩
  have link : FileOf (Link.loadFromSlice sampleCrates) sampleRoot linksName [] [linkFile] sampleLink :=
    ⟨_, rfl, sampleLink_decoded⟩
  have res : FileOf (Res.loadFromSlice sampleCrates) sampleRoot resesName [] [resFile] (sampleRes 'v') :=
    ⟨_, rfl, sampleRes_decoded.1⟩
  exact .link rule link res rfl ⟨_, rfl, rfl⟩ List.mem_cons_self rfl rfl

theorem client_answers_sample : ∃ steps s handle, Run (Step sampleCrates) (.start sampleVersion) steps s ∧
    s.center.handles[0]? = some handle ∧
    Offers sampleCrates sampleRoot [] (newWhoami (utf8Bytes ['a', '=', '1'])) ['k'] ⟨1, false, samplePair 'v'⟩ ∧
    Tells sampleCrates (fun _ => sampleRoot) (Published sampleVersion steps) [] handle.currentMemstore
      handle.getCfg := by
  obtain ⟨hash, serves⟩ := sample_serves
  obtain ⟨fuel, index, loads⟩ := sample_loads serves
  have loads := memStorage_of_load loads
  have genuine : (sampleLoading fuel index loads).From fun _ => sampleRoot :=
    Answers.from_withoutFiles.withStore serves loads
  have loaded : (sampleLoading fuel index loads).memStorageNew ['/'] sampleVersion =
      .ok (storeOf sampleVersion index) := Answers.withStore_own
  obtain ⟨steps, run, allowed⟩ : GoesBy (Action.From fun _ => sampleRoot) (.start sampleVersion) 0 .idle
      (holders none none) (.new sampleVersion) .idle (holders none none)
      ((CFGCenterInner.new sampleVersion).insert
        (.new ['/'] (storeOf sampleVersion index) .notifyWithoutChangedKeysByGlobal true)) :=
    create_goesBy rfl loaded (fun _ => trivial) (fun _ => trivial) (fun _ => trivial) (fun _ _ => trivial)
      genuine .notifyWithoutChangedKeysByGlobal true
  rw [State.start_alone] at run
  exact ⟨steps, _, _, run, rfl, sampleOffer, (client_answers sampleCrates (fun _ => sampleRoot) sampleVersion steps _ run
    allowed 0 _ rfl [] rfl).1⟩

end Sample

end Eafcc.CfgCenter
