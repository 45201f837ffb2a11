import Eafcc.CfgCenter.Determinism
import Eafcc.CfgCenter.MissedUpdates

namespace Eafcc.CfgCenter

open Eafcc.Model Eafcc.Storage Eafcc.RuleEngine Transition

/-! # What the notify levels serve and when they notify -/

variable {Pri : Type} {crates : Crates Pri} {Content : Type}

def Operation.versionAfter (version : VersionItem) : Operation crates → VersionItem
  | .create .. => version
  | .event e _ => e.newVersion

/-- The version of the last event, or the one that the center started with. -/
def previousVersion (version : VersionItem) (steps : Operations crates) : VersionItem :=
  steps.foldl (fun last taken => taken.label.versionAfter last) version

theorem Performs.currentVersion {center center' : CFGCenterInner Pri} {op : Operation crates}
    (performs : Performs center op center') :
    center'.currentVersion = op.versionAfter center.currentVersion := by
  cases performs with
  | create => exact create_currentVersion
  | event => rfl

def TracksVersion (version : VersionItem) (steps : Operations crates) (center : CFGCenterInner Pri) :
    Prop :=
  center.currentVersion = previousVersion version steps

theorem TracksVersion.step {version : VersionItem} {steps : Operations crates}
    {center center' : CFGCenterInner Pri} {op : Operation crates}
    (tracks : TracksVersion version steps center) (performs : Performs center op center') :
    TracksVersion version (steps ++ [⟨center, op, center'⟩]) center' := by
  simp only [TracksVersion, previousVersion, List.foldl_append] at tracks ⊢
  rw [performs.currentVersion, tracks]
  rfl

/-! ## Notification -/

/-- The levels that are to tell of changes within the namespace. -/
def UpdateNotifyLevel.scopedToNamespace : UpdateNotifyLevel → Bool
  | .notifyWithoutChangedKeysInNamespace => true
  | .notifyWithMaybeChangedKeys => true
  | _ => false

/-- An event runs the callback of a namespace at such a level once if it differs
from the event before it, and else never. -/
def NotifiedExactly (content : VersionItem → Str → Content) (version : VersionItem) (ns : Str)
    (earlier : Operations crates) (taken : Taken (CFGCenterInner Pri) (Operation crates)) : Prop :=
  ∀ e answers, taken.label = .event e answers →
    ∀ handle, taken.before.serving ns = some handle → handle.callback = true →
      handle.notifyLevel.scopedToNamespace = true →
      ∃ handle', taken.after.serving ns = some handle' ∧
        (content (previousVersion version earlier) ns = content e.newVersion ns →
          handle'.called.length = handle.called.length) ∧
        (content (previousVersion version earlier) ns ≠ content e.newVersion ns →
          handle'.called.length = handle.called.length + 1)

/-- An event for a namespace at such a level does not differ from the one before
it. -/
def UndifferentEvent (content : VersionItem → Str → Content) (version : VersionItem) (ns : Str)
    (earlier : Operations crates) (taken : Taken (CFGCenterInner Pri) (Operation crates)) : Prop :=
  ∀ e answers, taken.label = .event e answers →
    ∀ handle, taken.before.serving ns = some handle → handle.callback = true →
      handle.notifyLevel.scopedToNamespace = true →
      content (previousVersion version earlier) ns = content e.newVersion ns

/-- Neither of these levels has an arm that calls the callback. -/
theorem onEvent_called {handle : NamespaceScopedCFGCenter Pri}
    (level : handle.notifyLevel.scopedToNamespace = true) (answers : Answers crates)
    (oldVersion : VersionItem) (e : StorageChangeEvent) :
    (handle.onEvent answers oldVersion e).called = handle.called := by
  unfold NamespaceScopedCFGCenter.onEvent
  split
  · rfl
  · unfold NamespaceScopedCFGCenter.updateCallback
    split
    · rename_i global
      simp [global, UpdateNotifyLevel.scopedToNamespace] at level
    all_goals rfl

theorem notifiedExactly_iff {content : VersionItem → Str → Content} {version : VersionItem} {ns : Str}
    {steps : Operations crates} {center center' : CFGCenterInner Pri} {op : Operation crates}
    (performs : Performs center op center') :
    NotifiedExactly content version ns steps ⟨center, op, center'⟩ ↔
      UndifferentEvent content version ns steps ⟨center, op, center'⟩ := by
  constructor
  · intro exactly e answers label handle serving callback level
    obtain ⟨handle', after, -, differs⟩ := exactly e answers label handle serving callback level
    by_contra different
    have counted := differs different
    cases performs with
    | create => cases label
    | event iteration =>
        cases label
        change center.serving ns = some handle at serving
        rw [updateCallback_serving answers e iteration, serving, Option.map_some,
          Option.some.injEq] at after
        rw [← after, onEvent_called level] at counted
        omega
  · intro undifferent e answers label handle serving callback level
    have same := undifferent e answers label handle serving callback level
    cases performs with
    | create => cases label
    | event iteration =>
        cases label
        change center.serving ns = some handle at serving
        refine ⟨handle.onEvent answers center.currentVersion e, ?_, fun _ => ?_, fun differs => ?_⟩
        · rw [updateCallback_serving answers e iteration, serving, Option.map_some]
        · rw [onEvent_called level]
        · exact absurd same differs

/-- In a run of creates and events the callbacks are called exactly for the events
that differ only where no event does. -/
theorem notified_exactly_iff (crates : Crates Pri) (content : VersionItem → Str → Content)
    (version : VersionItem) (steps : Operations crates) (center : CFGCenterInner Pri)
    (run : Run Performs (.new version) steps center) (ns : Str) :
    center.currentVersion = previousVersion version steps ∧
      (Each (NotifiedExactly content version ns) steps ↔
        Each (UndifferentEvent content version ns) steps) := by
  have start : TracksVersion version ([] : Operations crates) (.new version) := rfl
  exact run.each_iff (H := fun _ => True) (fun _ _ => trivial) start
    (fun _ _ _ _ tracks performs _ => tracks.step performs)
    fun _ _ _ _ _ performs _ => notifiedExactly_iff performs

theorem notified_exactly_iff_sample : ∃ steps center,
    Run SamplePerforms (.new sampleVersion) steps center ∧ steps.length = 2 ∧
    Each (NotifiedExactly (fun version _ => version) sampleVersion ['/']) steps := by
  have start : Run SamplePerforms (.new sampleVersion) [] (.new sampleVersion) := .nil
  have processed : Performs (sampleLevel .notifyWithMaybeChangedKeys)
      (.event ⟨sampleVersion⟩ (sampleDiffs false))
      ((sampleLevel .notifyWithMaybeChangedKeys).updateCallback (sampleDiffs false) [(['/'], 0)]
        ⟨sampleVersion⟩) := .event (iteration_single rfl)
  have run := (start.snoc (sampleLevel_performs _)).snoc processed
  refine ⟨_, _, run, rfl, (notified_exactly_iff sampleCrates (fun version _ => version) sampleVersion _ _
    run ['/']).2.mpr ?_⟩
  refine each_snoc.mpr ⟨each_snoc.mpr ⟨each_nil, ?_⟩, ?_⟩
  · intro e answers label
    cases label
  · intro e answers label handle serving callback level
    cases label
    rfl

/-- An event with changes, for which all calls succeed, runs no callback. -/
theorem callback_not_run : ∃ steps center,
    Run SamplePerforms (.new sampleVersion) steps center ∧
    (∀ taken ∈ steps, FaithfulDiff (fun version _ => version) taken ∧ EventSucceeds ['/'] taken) ∧
    ¬ Each (NotifiedExactly (fun version _ => version) sampleVersion ['/']) steps := by
  have start : Run SamplePerforms (.new sampleVersion) [] (.new sampleVersion) := .nil
  have run := (start.snoc (sampleLevel_performs _)).snoc (sampleMissed_performs false)
  refine ⟨_, _, run, ?_, fun exactly => ?_⟩
  · refine List.forall_mem_append.mpr ⟨List.forall_mem_singleton.mpr ⟨faithfulDiff_create _, ?_⟩,
      List.forall_mem_singleton.mpr ⟨sampleDiffs_faithfulDiff _ _, ?_⟩⟩
    · intro e answers label
      cases label
    · intro e answers label
      cases label
      exact ⟨_, rfl, fun _ => ⟨_, rfl⟩⟩
  · obtain ⟨-, last⟩ := each_snoc.mp exactly
    obtain ⟨handle, after, -, once⟩ := last sampleEvent (sampleDiffs false) rfl _ rfl rfl rfl
    have counted := once fun same => by cases congrArg VersionItem.name same
    cases after
    cases counted

/-! ## Served data -/

/-- The levels whose arm hands the snapshot on to be installed. -/
def UpdateNotifyLevel.installs : UpdateNotifyLevel → Bool
  | .notifyWithoutChangedKeysByGlobal => true
  | .notifyWithoutChangedKeysInNamespace => true
  | _ => false

section Served

variable {Query Reply : Type}

/-- The calls for one event and namespace succeed, and the loaded snapshot answers
queries as the content of its version. -/
structure Answers.Serves (answers : Answers crates) (content : VersionItem → Str → Content)
    (query : MemStorage Pri → Query → Reply) (answer : Content → Query → Reply) (ns : Str)
    (old new : VersionItem) : Prop where
  diff : ∃ changed, answers.getDiffList old new ns = .ok changed ∧
    (content old ns ≠ content new ns → changed ≠ [])
  load : ∃ memStore, answers.memStorageNew ns new = .ok memStore ∧
    ∀ q, query memStore q = answer (content new ns) q

/-- Two centers process the same event. -/
structure Fed (crates : Crates Pri) where
  e : StorageChangeEvent
  first : Answers crates
  second : Answers crates

structure FeedsBoth (content : VersionItem → Str → Content) (query : MemStorage Pri → Query → Reply)
    (answer : Content → Query → Reply) (ns : Str) (before : CFGCenterInner Pri × CFGCenterInner Pri)
    (fed : Fed crates) (after : CFGCenterInner Pri × CFGCenterInner Pri) : Prop where
  first : Performs before.1 (.event fed.e fed.first) after.1
  second : Performs before.2 (.event fed.e fed.second) after.2
  firstServes : fed.first.Serves content query answer ns before.1.currentVersion fed.e.newVersion
  secondServes : fed.second.Serves content query answer ns before.2.currentVersion fed.e.newVersion

def SameAnswers (query : MemStorage Pri → Query → Reply) (ns : Str)
    (centers : CFGCenterInner Pri × CFGCenterInner Pri) : Prop :=
  ∃ handle handle', centers.1.serving ns = some handle ∧ centers.2.serving ns = some handle' ∧
    ∀ q, query handle.currentMemstore q = query handle'.currentMemstore q

variable {content : VersionItem → Str → Content} {query : MemStorage Pri → Query → Reply}
  {answer : Content → Query → Reply} {ns : Str} {level : UpdateNotifyLevel} {created : VersionItem}
  {center center' : CFGCenterInner Pri} {answers : Answers crates} {e : StorageChangeEvent}

theorem onEvent_kept {handle : NamespaceScopedCFGCenter Pri} {oldVersion : VersionItem}
    (level : handle.notifyLevel.installs = false) : handle.onEvent answers oldVersion e = handle := by
  have nothing : CFGCenterInner.loadChanged answers handle.notifyLevel oldVersion e.newVersion
      handle.namespaceName = none := by
    cases at_ : handle.notifyLevel with
    | notifyWithoutChangedKeysByGlobal => simp [at_, UpdateNotifyLevel.installs] at level
    | notifyWithoutChangedKeysInNamespace => simp [at_, UpdateNotifyLevel.installs] at level
    | notifyWithMaybeChangedKeys =>
        simp only [CFGCenterInner.loadChanged]
        split
        · rfl
        · split
          · rfl
          · split <;> rfl
    | noNotify => rfl
  simp [NamespaceScopedCFGCenter.onEvent, nothing]

/-- The namespace answers for the center's version if its level installs, and else
for the version that it was created from. -/
def AnswersAt (content : VersionItem → Str → Content) (query : MemStorage Pri → Query → Reply)
    (answer : Content → Query → Reply) (ns : Str) (level : UpdateNotifyLevel) (created : VersionItem)
    (center : CFGCenterInner Pri) : Prop :=
  ∃ handle, center.serving ns = some handle ∧ handle.notifyLevel = level ∧
    ∀ q, query handle.currentMemstore q =
      answer (content (if level.installs then center.currentVersion else created) ns) q

theorem AnswersAt.event (inv : AnswersAt content query answer ns level created center)
    (performs : Performs center (.event e answers) center')
    (serves : answers.Serves content query answer ns center.currentVersion e.newVersion) :
    AnswersAt content query answer ns level created center' := by
  obtain ⟨handle, serving, rfl, replies⟩ := inv
  obtain ⟨changed, diff, differs⟩ := serves.diff
  obtain ⟨memStore, loaded, loadedReplies⟩ := serves.load
  have named := serving_namespaceName serving
  cases performs with
  | event iteration =>
      refine ⟨handle.onEvent answers center.currentVersion e, ?_, by simp, fun q => ?_⟩
      · rw [updateCallback_serving answers e iteration, serving, Option.map_some]
      · rw [updateCallback_currentVersion]
        cases level : handle.notifyLevel with
        | notifyWithoutChangedKeysByGlobal =>
            rw [← named] at loaded
            rw [onEvent_global level loaded,
              NamespaceScopedCFGCenter.updateCallback_currentMemstore _ _ _ (by simp [level])]
            exact loadedReplies q
        | notifyWithoutChangedKeysInNamespace =>
            rcases onEvent_inNamespace answers center.currentVersion e level with
              ⟨same, fails⟩ | ⟨file, files, other, -, loaded', updated⟩
            · rw [named] at fails
              have agree : content center.currentVersion ns = content e.newVersion ns := by
                by_contra different
                obtain ⟨reason, failed⟩ := fails changed diff (differs different)
                simp [failed] at loaded
              rw [same, replies q, level]
              exact congrArg (answer · q) agree
            · rw [named, loaded, Except.ok.injEq] at loaded'
              rw [updated, ← loaded']
              exact loadedReplies q
        | notifyWithMaybeChangedKeys =>
            rw [onEvent_kept (by simp [level, UpdateNotifyLevel.installs]), replies q, level]
            rfl
        | noNotify =>
            rw [onEvent_kept (by simp [level, UpdateNotifyLevel.installs]), replies q, level]
            rfl

theorem create_answersAt {callback : Bool} {memStore : MemStorage Pri}
    (started : center.currentVersion = created) (valid : CFGCenterInner.validNamespace ns = true)
    (loaded : answers.memStorageNew ns created = .ok memStore)
    (replies : ∀ q, query memStore q = answer (content created ns) q) :
    AnswersAt content query answer ns level created
      (center.createNamespaceScopedCfgCenter answers ns level callback).1 := by
  subst started
  refine ⟨_, create_serving_self valid loaded, rfl, fun q => ?_⟩
  rw [create_currentVersion, ite_self]
  exact replies q

/-- Both centers answer as their levels say. -/
structure BothAnswer (content : VersionItem → Str → Content) (query : MemStorage Pri → Query → Reply)
    (answer : Content → Query → Reply) (ns : Str) (level level' : UpdateNotifyLevel)
    (created : VersionItem) (centers : CFGCenterInner Pri × CFGCenterInner Pri) : Prop where
  first : AnswersAt content query answer ns level created centers.1
  second : AnswersAt content query answer ns level' created centers.2

variable {level' : UpdateNotifyLevel} {centers after : CFGCenterInner Pri × CFGCenterInner Pri}
  {fed : Fed crates}

theorem BothAnswer.step (inv : BothAnswer content query answer ns level level' created centers)
    (feeds : FeedsBoth content query answer ns centers fed after) :
    BothAnswer content query answer ns level level' created after :=
  ⟨inv.first.event feeds.first feeds.firstServes, inv.second.event feeds.second feeds.secondServes⟩

/-- Two centers agree after an event where their levels treat it alike, or where it
changes no answer. -/
theorem BothAnswer.sameAnswers_iff {current : VersionItem}
    (inv : BothAnswer content query answer ns level level' created centers)
    (firstCurrent : centers.1.currentVersion = current)
    (secondCurrent : centers.2.currentVersion = current) :
    SameAnswers query ns centers ↔ level.installs = level'.installs ∨
      ∀ q, answer (content current ns) q = answer (content created ns) q := by
  obtain ⟨handle, serving, -, replies⟩ := inv.first
  obtain ⟨handle', serving', -, replies'⟩ := inv.second
  rw [firstCurrent] at replies
  rw [secondCurrent] at replies'
  have same : SameAnswers query ns centers ↔
      ∀ q, query handle.currentMemstore q = query handle'.currentMemstore q := by
    simp [SameAnswers, serving, serving']
  rw [same]
  simp only [replies, replies']
  cases level.installs <;> cases level'.installs <;> simp [eq_comm]

variable (crates content query answer ns)

/-- Two centers whose namespace was created at two levels from the same version,
and that are fed the same events, answer alike after every event exactly if both
levels install or neither does, or no event changes an answer. -/
theorem same_answers_iff (version : VersionItem) (level level' : UpdateNotifyLevel)
    (callback callback' : Bool) (base base' : CFGCenterInner Pri) (answers answers' : Answers crates)
    (started : base.currentVersion = version) (started' : base'.currentVersion = version)
    (valid : CFGCenterInner.validNamespace ns = true) (memStore memStore' : MemStorage Pri)
    (loaded : answers.memStorageNew ns version = .ok memStore)
    (loaded' : answers'.memStorageNew ns version = .ok memStore')
    (replies : ∀ q, query memStore q = answer (content version ns) q)
    (replies' : ∀ q, query memStore' q = answer (content version ns) q)
    (steps : List (Taken (CFGCenterInner Pri × CFGCenterInner Pri) (Fed crates)))
    (centers : CFGCenterInner Pri × CFGCenterInner Pri)
    (run : Run (FeedsBoth content query answer ns)
      ((base.createNamespaceScopedCfgCenter answers ns level callback).1,
        (base'.createNamespaceScopedCfgCenter answers' ns level' callback').1) steps centers) :
    (∀ taken ∈ steps, SameAnswers query ns taken.after) ↔
      level.installs = level'.installs ∨
        ∀ taken ∈ steps, ∀ q,
          answer (content taken.label.e.newVersion ns) q = answer (content version ns) q := by
  have start : BothAnswer content query answer ns level level' version
      ((base.createNamespaceScopedCfgCenter answers ns level callback).1,
        (base'.createNamespaceScopedCfgCenter answers' ns level' callback').1) :=
    ⟨create_answersAt started valid loaded replies, create_answersAt started' valid loaded' replies'⟩
  have each := run.forall_iff (P := fun taken => SameAnswers query ns taken.after)
    (Q := fun taken => level.installs = level'.installs ∨
      ∀ q, answer (content taken.label.e.newVersion ns) q = answer (content version ns) q)
    start (fun _ _ _ inv feeds => inv.step feeds)
    fun _ _ _ inv feeds => (inv.step feeds).sameAnswers_iff feeds.first.currentVersion
      feeds.second.currentVersion
  refine each.trans ?_
  by_cases alike : level.installs = level'.installs
  · simp [alike]
  · simp [alike]

end Served

/-! ### A version with files and one without -/

/-- The overlaid view of the sample context, with the rules in an order of their
iteration. -/
noncomputable def sampleQuery (store : MemStorage Nat) (keys : List Str) :
    Option (List (CFGResult Nat)) :=
  Querier.get (sortPreferring [sampleLinkItem ['s'], sampleLinkItem ['t']]) store
    (store.indices.ruleStor.storage.entries.toList.map (·.2)) sampleContext keys .overlaidView false

theorem sampleQuery_empty (version : VersionItem) (keys : List Str) :
    sampleQuery { version, indices := .empty } keys = some [] := by
  have none_ : (CFGIndex.empty : CFGIndex Nat).ruleStor.storage.entries = 0 := rfl
  simp [sampleQuery, none_, Querier.get, collectActLinks]

theorem sampleQuery_loaded {index : CFGIndex Nat} (loaded : Loaded sampleCrates sampleRoot [] index)
    (version : VersionItem) :
    sampleQuery (storeOf version index) [['k']] = some [⟨none, samplePair 'v'⟩] := by
  have order : ((index.ruleStor.storage.entries.toList.map (·.2) : List IdxRuleItem) :
      Multiset IdxRuleItem) = ([ruleEntry ['r'] sampleRule] : List IdxRuleItem) := by
    rw [← Multiset.map_coe, Multiset.coe_toList]
    exact (sample_iteration loaded).symm
  have rules := List.perm_singleton.mp (Multiset.coe_eq_coe.mp order)
  exact (congrArg (fun rules => Querier.get _ _ rules _ _ _ _) rules).trans
    (sample_shows loaded version).1

theorem sample_new : ∃ index, Loaded sampleCrates sampleRoot [] index ∧
    ∃ backend fuel, MemStorage.new sampleCrates backend fuel ['/'] sampleVersion =
      some (.ok (storeOf sampleVersion index)) := by
  obtain ⟨hash, serves⟩ := sample_serves
  obtain ⟨fuel, index, loads⟩ := sample_loads serves
  refine ⟨index, load_loaded serves loads, sampleBackend, fuel, ?_⟩
  change (IndexBuilder.load sampleCrates sampleBackend fuel (namespaceText []) sampleVersion).map _ = _
  rw [loads]
  rfl

def sampleFed : Fed sampleCrates := ⟨sampleEvent, sampleDiffs false, sampleDiffs false⟩

/-- Two centers with a namespace at a level each process the sample event. -/
theorem sample_feeds {first second : CFGCenterInner Nat}
    {answer : VersionItem → List Str → Option (List (CFGResult Nat))}
    (only : first.namespaces = Finmap.insert ['/'] 0 ∅)
    (only' : second.namespaces = Finmap.insert ['/'] 0 ∅)
    (absent : ∀ keys, answer sampleEvent.newVersion keys = some []) :
    FeedsBoth (fun version _ => version) sampleQuery answer ['/'] (first, second) sampleFed
      (first.updateCallback (sampleDiffs false) [(['/'], 0)] sampleEvent,
        second.updateCallback (sampleDiffs false) [(['/'], 0)] sampleEvent) := by
  have serves : ∀ old, (sampleDiffs false).Serves (fun version _ => version) sampleQuery answer ['/']
      old sampleEvent.newVersion := by
    intro old
    refine ⟨⟨_, rfl, fun different => ?_⟩, _, rfl, fun keys => ?_⟩
    · rw [if_neg different]
      simp
    · rw [absent]
      exact sampleQuery_empty _ _
  exact ⟨.event (iteration_single only), .event (iteration_single only'), serves _, serves _⟩

/-- Calls that load the sample for the first version, and no files for later ones. -/
def sampleFading (index : CFGIndex Nat) (loads : ∃ backend fuel,
    MemStorage.new sampleCrates backend fuel ['/'] sampleVersion = some (.ok (storeOf sampleVersion index))) :
    Answers sampleCrates :=
  sampleAnswers.withStore ['/'] sampleVersion (storeOf sampleVersion index) loads

noncomputable def fadingAnswer (index : CFGIndex Nat) (version : VersionItem) (keys : List Str) :
    Option (List (CFGResult Nat)) :=
  if version = sampleVersion then sampleQuery (storeOf sampleVersion index) keys else some []

/-- The namespace was created while there were files. -/
def sampleFaded (index : CFGIndex Nat) (loads : ∃ backend fuel,
    MemStorage.new sampleCrates backend fuel ['/'] sampleVersion = some (.ok (storeOf sampleVersion index)))
    (level : UpdateNotifyLevel) : CFGCenterInner Nat :=
  ((CFGCenterInner.new sampleVersion).createNamespaceScopedCfgCenter (sampleFading index loads) ['/'] level true).1

/-- An event removes all files, and both namespaces serve what is left. -/
theorem same_answers_iff_sample : ∃ index loads,
    fadingAnswer index sampleVersion [['k']] = some [⟨none, samplePair 'v'⟩] ∧
    fadingAnswer index sampleEvent.newVersion [['k']] = some [] ∧
    ∃ steps centers, Run (FeedsBoth (fun version _ => version) sampleQuery (fadingAnswer index) ['/'])
        (sampleFaded index loads .notifyWithoutChangedKeysByGlobal,
          sampleFaded index loads .notifyWithoutChangedKeysInNamespace) steps centers ∧
      steps.map Taken.label = [sampleFed] ∧
      ∀ taken ∈ steps, SameAnswers sampleQuery ['/'] taken.after := by
  obtain ⟨index, loaded, loads⟩ := sample_new
  have absent : ∀ keys, fadingAnswer index sampleEvent.newVersion keys = some [] := fun _ => rfl
  have start : Run (FeedsBoth (fun version _ => version) sampleQuery (fadingAnswer index) ['/'])
      (sampleFaded index loads .notifyWithoutChangedKeysByGlobal,
        sampleFaded index loads .notifyWithoutChangedKeysInNamespace)
      ([] : List (Taken _ (Fed sampleCrates))) _ := .nil
  have run := start.snoc (sample_feeds rfl rfl absent)
  have whole := same_answers_iff sampleCrates (fun version _ => version) sampleQuery (fadingAnswer index) ['/']
    sampleVersion .notifyWithoutChangedKeysByGlobal .notifyWithoutChangedKeysInNamespace true true
    (.new sampleVersion) (.new sampleVersion) (sampleFading index loads) (sampleFading index loads) rfl rfl rfl
    _ _ rfl rfl (fun _ => rfl) (fun _ => rfl) _ _ run
  exact ⟨index, loads, sampleQuery_loaded loaded _, rfl, _, _, run, rfl, whole.mpr (.inl rfl)⟩

/-- After an event that removes all files, a namespace at the level of changed keys
still serves them. -/
theorem answers_depend_on_level : ∃ (answers : Answers sampleCrates)
    (answer : VersionItem → List Str → Option (List (CFGResult Nat)))
    (memStore : MemStorage Nat),
    answers.memStorageNew ['/'] sampleVersion = .ok memStore ∧
    (∀ keys, sampleQuery memStore keys = answer sampleVersion keys) ∧
    ∃ steps centers,
      Run (FeedsBoth (fun version _ => version) sampleQuery answer ['/'])
        (((CFGCenterInner.new sampleVersion).createNamespaceScopedCfgCenter answers ['/']
            .notifyWithoutChangedKeysByGlobal true).1,
          ((CFGCenterInner.new sampleVersion).createNamespaceScopedCfgCenter answers ['/']
            .notifyWithMaybeChangedKeys true).1) steps centers ∧
      steps.map Taken.label = [sampleFed] ∧
      ¬ ∀ taken ∈ steps, SameAnswers sampleQuery ['/'] taken.after := by
  obtain ⟨index, loaded, loads⟩ := sample_new
  have absent : ∀ keys, fadingAnswer index sampleEvent.newVersion keys = some [] := fun _ => rfl
  refine ⟨sampleFading index loads, fadingAnswer index, storeOf sampleVersion index, rfl, fun _ => rfl, _, _,
    Run.nil.snoc (sample_feeds rfl rfl absent), rfl, fun same => ?_⟩
  obtain ⟨handle, handle', serving, serving', agree⟩ := same _ (List.mem_singleton_self _)
  cases serving
  cases serving'
  have replies : sampleQuery { version := sampleEvent.newVersion, indices := .empty } [['k']] =
    sampleQuery (storeOf sampleVersion index) [['k']] := agree [['k']]
  rw [sampleQuery_empty, sampleQuery_loaded loaded] at replies
  cases replies

end Eafcc.CfgCenter
