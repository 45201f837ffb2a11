import Eafcc.CfgCenter.Events

namespace Eafcc.CfgCenter

open Eafcc.Model Eafcc.Storage Transition

/-! # Updates that follow a failed one -/

variable {Pri : Type} {crates : Crates Pri} {Content : Type}

/-- A successful diff is empty exactly if the versions agree under the namespace. -/
def Answers.Faithful (answers : Answers crates) (content : VersionItem → Str → Content) : Prop :=
  ∀ old new ns changed, answers.getDiffList old new ns = .ok changed →
    (changed = [] ↔ content old ns = content new ns)

/-- The diff succeeds, and the loading does unless there is nothing to load. -/
def Answers.Succeed (answers : Answers crates) (old new : VersionItem) (ns : Str) : Prop :=
  ∃ changed, answers.getDiffList old new ns = .ok changed ∧
    (changed ≠ [] → ∃ memStore, answers.memStorageNew ns new = .ok memStore)

def FaithfulDiff (content : VersionItem → Str → Content)
    (taken : Taken (CFGCenterInner Pri) (Operation crates)) : Prop :=
  ∀ e answers, taken.label = .event e answers → answers.Faithful content

/-- An event whose calls succeed leaves the namespace with its content. -/
def NotLost (content : VersionItem → Str → Content) (ns : Str)
    (taken : Taken (CFGCenterInner Pri) (Operation crates)) : Prop :=
  ∀ e answers, taken.label = .event e answers →
    answers.Succeed taken.before.currentVersion e.newVersion ns →
    ∀ handle, taken.after.serving ns = some handle →
      handle.notifyLevel = .notifyWithoutChangedKeysInNamespace →
      content handle.currentMemstore.version ns = content e.newVersion ns

/-- The version that a step loads a namespace of this level from, if it does. -/
def loadedBy (ns : Str) (taken : Taken (CFGCenterInner Pri) (Operation crates)) : Option VersionItem :=
  match taken.label with
  | .create other _ _ answers =>
      if other = ns ∧ CFGCenterInner.validNamespace ns then
        match answers.memStorageNew ns taken.before.currentVersion with
        | .ok _ => some taken.before.currentVersion
        | .error _ => none
      else none
  | .event e answers =>
      match answers.getDiffList taken.before.currentVersion e.newVersion ns with
      | .ok (_ :: _) =>
          match answers.memStorageNew ns e.newVersion with
          | .ok _ => some e.newVersion
          | .error _ => none
      | _ => none

def lastLoaded (ns : Str) (steps : Operations crates) : Option VersionItem :=
  steps.foldl (fun last taken => (loadedBy ns taken).or last) none

/-- Where an event changes nothing under the namespace, nothing had changed there
between the version last loaded and the event. -/
def CaughtUp (content : VersionItem → Str → Content) (ns : Str) (earlier : Operations crates)
    (taken : Taken (CFGCenterInner Pri) (Operation crates)) : Prop :=
  ∀ e answers, taken.label = .event e answers →
    answers.getDiffList taken.before.currentVersion e.newVersion ns = .ok [] →
    ∀ handle, taken.before.serving ns = some handle →
      handle.notifyLevel = .notifyWithoutChangedKeysInNamespace →
      ∀ loaded, lastLoaded ns earlier = some loaded →
        content loaded ns = content taken.before.currentVersion ns

section Steps

variable {content : VersionItem → Str → Content} {ns : Str} {steps : Operations crates}
  {center center' : CFGCenterInner Pri} {op : Operation crates} {answers : Answers crates}
  {e : StorageChangeEvent} {handle : NamespaceScopedCFGCenter Pri}

theorem lastLoaded_snoc (taken : Taken (CFGCenterInner Pri) (Operation crates)) :
    lastLoaded ns (steps ++ [taken]) = (loadedBy ns taken).or (lastLoaded ns steps) := by
  simp [lastLoaded, List.foldl_append]

/-- What an event does at the level of changes within the namespace. -/
theorem onEvent_inNamespace (answers : Answers crates) (oldVersion : VersionItem)
    (e : StorageChangeEvent) (level : handle.notifyLevel = .notifyWithoutChangedKeysInNamespace) :
    (handle.onEvent answers oldVersion e = handle ∧
      ∀ changed, answers.getDiffList oldVersion e.newVersion handle.namespaceName = .ok changed →
        changed ≠ [] →
        ∃ reason, answers.memStorageNew handle.namespaceName e.newVersion = .error reason) ∨
    ∃ file files memStore,
      answers.getDiffList oldVersion e.newVersion handle.namespaceName = .ok (file :: files) ∧
      answers.memStorageNew handle.namespaceName e.newVersion = .ok memStore ∧
      handle.onEvent answers oldVersion e = { handle with currentMemstore := memStore } := by
  unfold NamespaceScopedCFGCenter.onEvent CFGCenterInner.loadChanged
  rw [level]
  cases diff : answers.getDiffList oldVersion e.newVersion handle.namespaceName with
  | error reason => exact .inl ⟨rfl, by simp⟩
  | ok changed =>
      cases changed with
      | nil => exact .inl ⟨rfl, by simp⟩
      | cons file files =>
          cases loaded : answers.memStorageNew handle.namespaceName e.newVersion with
          | error reason => exact .inl ⟨by simp, fun _ _ _ => ⟨reason, rfl⟩⟩
          | ok memStore =>
              refine .inr ⟨file, files, memStore, rfl, rfl, ?_⟩
              simp [NamespaceScopedCFGCenter.updateCallback, level]

/-- Where the snapshot of a namespace of this level comes from. -/
theorem Performs.loaded (performs : Performs center op center')
    (serving : center'.serving ns = some handle)
    (level : handle.notifyLevel = .notifyWithoutChangedKeysInNamespace) :
    loadedBy ns ⟨center, op, center'⟩ = some handle.currentMemstore.version ∨
      loadedBy ns ⟨center, op, center'⟩ = none ∧ center.serving ns = some handle := by
  cases performs with
  | @create other level' callback answers =>
      by_cases created : other = ns ∧ CFGCenterInner.validNamespace ns
      · obtain ⟨rfl, valid⟩ := created
        cases loaded : answers.memStorageNew other center.currentVersion with
        | error reason =>
            rw [create_error fun _ => ⟨reason, loaded⟩] at serving
            exact .inr ⟨by simp [loadedBy, loaded], serving⟩
        | ok memStore =>
            rw [create_serving_self valid loaded, Option.some.injEq] at serving
            subst serving
            refine .inl ?_
            simp [loadedBy, loaded, valid, NamespaceScopedCFGCenter.new, answers.version_eq loaded]
      · refine .inr ⟨if_neg created, ?_⟩
        by_cases same : other = ns
        · subst same
          rwa [create_error fun valid => absurd ⟨rfl, valid⟩ created] at serving
        · rwa [create_serving (Ne.symm same)] at serving
  | @event e answers order iteration =>
      rw [updateCallback_serving answers e iteration, Option.map_eq_some_iff] at serving
      obtain ⟨earlier, serving, rfl⟩ := serving
      have named := serving_namespaceName serving
      rw [NamespaceScopedCFGCenter.onEvent_notifyLevel] at level
      rcases onEvent_inNamespace answers center.currentVersion e level with
        ⟨same, fails⟩ | ⟨file, files, memStore, diff, loaded, updated⟩
      · rw [named] at fails
        refine .inr ⟨?_, by rwa [same]⟩
        simp only [loadedBy]
        split
        · rename_i file files diff
          obtain ⟨reason, failed⟩ := fails _ diff (by simp)
          rw [failed]
        · rfl
      · rw [named] at diff loaded
        refine .inl ?_
        rw [updated]
        simp [loadedBy, diff, loaded, answers.version_eq loaded]

/-- The snapshot of a namespace of this level is of the version last loaded. -/
def ServesLastLoaded (ns : Str) (steps : Operations crates) (center : CFGCenterInner Pri) : Prop :=
  ∀ handle, center.serving ns = some handle →
    handle.notifyLevel = .notifyWithoutChangedKeysInNamespace →
    lastLoaded ns steps = some handle.currentMemstore.version

theorem ServesLastLoaded.step (inv : ServesLastLoaded ns steps center)
    (performs : Performs center op center') :
    ServesLastLoaded ns (steps ++ [⟨center, op, center'⟩]) center' := by
  intro handle serving level
  rw [lastLoaded_snoc]
  rcases performs.loaded serving level with loaded | ⟨kept, before⟩
  · rw [loaded, Option.some_or]
  · rw [kept, Option.none_or]
    exact inv handle before level

/-- The event of a step is not lost exactly if the namespace had caught up. -/
theorem notLost_iff_caughtUp (inv : ServesLastLoaded ns steps center)
    (performs : Performs center op center') (faithful : FaithfulDiff content ⟨center, op, center'⟩) :
    NotLost content ns ⟨center, op, center'⟩ ↔ CaughtUp content ns steps ⟨center, op, center'⟩ := by
  cases performs with
  | create =>
      refine ⟨fun _ e answers label => ?_, fun _ e answers label => ?_⟩
      · cases label
      · cases label
  | @event e answers order iteration =>
      have agrees := faithful e answers rfl
      have after := updateCallback_serving answers e iteration ns
      constructor
      · intro notLost e' answers' label diff handle serving level loaded last
        cases label
        have named := serving_namespaceName serving
        rw [serving, Option.map_some] at after
        have served := notLost e answers rfl ⟨[], diff, by simp⟩ _ after (by simpa using level)
        rw [inv handle serving level, Option.some.injEq] at last
        rcases onEvent_inNamespace answers center.currentVersion e level with
          ⟨same, -⟩ | ⟨file, files, memStore, diff', -, -⟩
        · rw [same, last] at served
          exact served.trans ((agrees _ _ _ _ diff).mp rfl).symm
        · rw [named, diff, Except.ok.injEq] at diff'
          contradiction
      · intro caughtUp e' answers' label succeed handle serving level
        cases label
        obtain ⟨changed, diff, loads⟩ := succeed
        rw [after, Option.map_eq_some_iff] at serving
        obtain ⟨earlier, serving, rfl⟩ := serving
        rw [NamespaceScopedCFGCenter.onEvent_notifyLevel] at level
        have named := serving_namespaceName serving
        rcases onEvent_inNamespace answers center.currentVersion e level with
          ⟨same, fails⟩ | ⟨file, files, memStore, -, loaded, updated⟩
        · rw [named] at fails
          have empty : changed = [] := by
            by_contra nonempty
            obtain ⟨memStore, loaded⟩ := loads nonempty
            obtain ⟨reason, failed⟩ := fails changed diff nonempty
            simp [failed] at loaded
          subst empty
          rw [same, ← (agrees _ _ _ _ diff).mp rfl]
          exact caughtUp e answers rfl diff earlier serving level _ (inv earlier serving level)
        · rw [updated, answers.version_eq loaded]

theorem loadedBy_eq {loaded : VersionItem} (performs : Performs center op center')
    (from_ : loadedBy ns ⟨center, op, center'⟩ = some loaded) : loaded = center'.currentVersion := by
  cases performs with
  | create =>
      rw [create_currentVersion]
      simp only [loadedBy] at from_
      split at from_
      · split at from_ <;> simp_all
      · cases from_
  | event =>
      simp only [loadedBy] at from_
      split at from_
      · split at from_ <;> simp_all
      · cases from_

/-- The event's calls for a namespace succeed. -/
def EventSucceeds (ns : Str) (taken : Taken (CFGCenterInner Pri) (Operation crates)) : Prop :=
  ∀ e answers, taken.label = .event e answers →
    answers.Succeed taken.before.currentVersion e.newVersion ns

/-- A namespace of this level serves the content of the center's version. -/
def ServesCurrent (content : VersionItem → Str → Content) (ns : Str) (center : CFGCenterInner Pri) :
    Prop :=
  ∀ handle, center.serving ns = some handle →
    handle.notifyLevel = .notifyWithoutChangedKeysInNamespace →
    content handle.currentMemstore.version ns = content center.currentVersion ns

theorem ServesCurrent.step (inv : ServesCurrent content ns center)
    (performs : Performs center op center') (faithful : FaithfulDiff content ⟨center, op, center'⟩)
    (succeeds : EventSucceeds ns ⟨center, op, center'⟩) : ServesCurrent content ns center' := by
  intro handle serving level
  rcases performs.loaded serving level with loaded | ⟨kept, before⟩
  · rw [loadedBy_eq performs loaded]
  · rw [inv handle before level]
    cases performs with
    | create => rw [create_currentVersion]
    | @event e answers order iteration =>
        obtain ⟨changed, diff, loads⟩ : answers.Succeed center.currentVersion e.newVersion ns :=
          succeeds e answers rfl
        have empty : changed = [] := by
          cases changed with
          | nil => rfl
          | cons file files =>
              obtain ⟨memStore, loaded⟩ := loads (by simp)
              simp [loadedBy, diff, loaded] at kept
        exact (faithful e answers rfl _ _ _ _ diff).mp empty

structure ServesLoaded (content : VersionItem → Str → Content) (ns : Str) (steps : Operations crates)
    (center : CFGCenterInner Pri) : Prop where
  lastLoaded : ServesLastLoaded ns steps center
  current : ServesCurrent content ns center

theorem ServesLoaded.caughtUp (inv : ServesLoaded content ns steps center)
    (taken : Taken (CFGCenterInner Pri) (Operation crates)) (from_ : taken.before = center) :
    CaughtUp content ns steps taken := by
  subst from_
  intro e answers _ _ handle serving level loaded last
  rw [inv.lastLoaded handle serving level, Option.some.injEq] at last
  rw [← last]
  exact inv.current handle serving level

end Steps

/-- A namespace for which no call fails has always caught up. -/
theorem caughtUp_of_succeed (content : VersionItem → Str → Content) (version : VersionItem)
    (steps : Operations crates) (center : CFGCenterInner Pri)
    (run : Run Performs (.new version) steps center) (ns : Str)
    (succeed : ∀ taken ∈ steps, FaithfulDiff content taken ∧ EventSucceeds ns taken) :
    Each (CaughtUp content ns) steps := by
  have start : ServesLoaded content ns ([] : Operations crates) (.new version) :=
    ⟨fun _ serving => by simp at serving, fun _ serving => by simp at serving⟩
  have whole := run.each_iff (P := CaughtUp content ns) (Q := fun _ _ => True) succeed start
    (fun _ _ _ _ inv performs assumed =>
      ⟨inv.lastLoaded.step performs, inv.current.step performs assumed.1 assumed.2⟩)
    fun _ _ _ _ inv _ _ => iff_true_intro (inv.caughtUp _ rfl)
  exact whole.2.mpr fun _ _ _ _ => trivial

/-- In a run of creates and events no update of a namespace is lost exactly if the
namespace has caught up whenever an event changes nothing under it. -/
theorem no_update_lost_iff (crates : Crates Pri) (content : VersionItem → Str → Content)
    (version : VersionItem) (steps : Operations crates) (center : CFGCenterInner Pri)
    (run : Run Performs (.new version) steps center)
    (faithful : ∀ taken ∈ steps, FaithfulDiff content taken) (ns : Str) :
    (∀ taken ∈ steps, NotLost content ns taken) ↔ Each (CaughtUp content ns) steps := by
  have start : ServesLastLoaded ns ([] : Operations crates) (.new version) :=
    fun _ serving => by simp at serving
  rw [← each_const]
  exact (run.each_iff faithful start (fun _ _ _ _ inv performs _ => inv.step performs)
    fun _ _ _ _ inv performs faithful => notLost_iff_caughtUp inv performs faithful).2

/-! ### A load that fails once -/

def sampleDiffs (fails : Bool) : Answers sampleCrates :=
  .withoutFiles sampleCrates (fun old new _ => .ok (if old = new then [] else [['f']])) fun _ _ => fails

theorem sampleDiffs_faithful (fails : Bool) :
    (sampleDiffs fails).Faithful fun version _ => version := by
  intro old new ns changed diff
  cases diff
  split <;> simp_all

def sampleLevel (level : UpdateNotifyLevel) : CFGCenterInner Nat :=
  ((CFGCenterInner.new sampleVersion).createNamespaceScopedCfgCenter sampleAnswers ['/'] level true).1

theorem sampleLevel_performs (level : UpdateNotifyLevel) :
    Performs (.new sampleVersion) (.create ['/'] level true sampleAnswers) (sampleLevel level) := .create

/-- An order for a center with one namespace. -/
def sampleMissed (fails : Bool) : CFGCenterInner Nat :=
  (sampleLevel .notifyWithoutChangedKeysInNamespace).updateCallback (sampleDiffs fails) [(['/'], 0)]
    sampleEvent

theorem sampleMissed_performs (fails : Bool) :
    Performs (sampleLevel .notifyWithoutChangedKeysInNamespace)
      (.event sampleEvent (sampleDiffs fails)) (sampleMissed fails) :=
  .event (iteration_single rfl)

theorem faithfulDiff_create {level : UpdateNotifyLevel} {callback : Bool} {ns : Str}
    {answers : Answers crates} {center center' : CFGCenterInner Pri}
    (content : VersionItem → Str → Content) :
    FaithfulDiff content ⟨center, .create ns level callback answers, center'⟩ := by
  intro e answers label
  cases label

theorem sampleDiffs_faithfulDiff {center center' : CFGCenterInner Nat} (e : StorageChangeEvent)
    (fails : Bool) :
    FaithfulDiff (fun version _ => version) ⟨center, .event e (sampleDiffs fails), center'⟩ := by
  intro e' answers label
  cases label
  exact sampleDiffs_faithful fails

def sampleNextEvent : StorageChangeEvent := ⟨{ name := ['x'], id := toUtf8 ['x'] }⟩

/-- The load of one event fails, and the next event is for another version. -/
theorem no_update_lost_iff_sample : ∃ steps center,
    Run SamplePerforms (.new sampleVersion) steps center ∧
    steps.map Taken.label = [.create ['/'] .notifyWithoutChangedKeysInNamespace true sampleAnswers,
      .event sampleEvent (sampleDiffs true), .event sampleNextEvent (sampleDiffs false)] ∧
    (∃ handle, center.serving ['/'] = some handle ∧
      handle.currentMemstore.version = sampleNextEvent.newVersion) ∧
    ∀ taken ∈ steps, NotLost (fun version _ => version) ['/'] taken := by
  have start : Run SamplePerforms (.new sampleVersion) [] (.new sampleVersion) := .nil
  have next : Performs (sampleMissed true) (.event sampleNextEvent (sampleDiffs false))
      ((sampleMissed true).updateCallback (sampleDiffs false) [(['/'], 0)] sampleNextEvent) :=
    .event (iteration_single rfl)
  have run := ((start.snoc (sampleLevel_performs _)).snoc (sampleMissed_performs true)).snoc next
  refine ⟨_, _, run, rfl, ⟨_, rfl, rfl⟩, ?_⟩
  refine (no_update_lost_iff sampleCrates (fun version _ => version) sampleVersion _ _ run ?_ ['/']).mpr ?_
  · simp only [List.forall_mem_append, List.forall_mem_singleton]
    exact ⟨⟨⟨fun _ member => absurd member List.not_mem_nil, faithfulDiff_create _⟩,
      sampleDiffs_faithfulDiff _ _⟩, sampleDiffs_faithfulDiff _ _⟩
  · refine each_snoc.mpr ⟨each_snoc.mpr ⟨each_snoc.mpr ⟨each_nil, ?_⟩, ?_⟩, ?_⟩
    · intro e answers label
      cases label
    · intro e answers label diff
      cases label
      have changed : (.ok [['f']] : Except StorageBackendError (List Str)) = .ok [] := diff
      cases changed
    · intro e answers label diff
      cases label
      have changed : (.ok [['f']] : Except StorageBackendError (List Str)) = .ok [] := diff
      cases changed

/-- The second event for a version whose load failed finds no difference. -/
theorem update_lost : ∃ steps center,
    Run SamplePerforms (.new sampleVersion) steps center ∧
    (∀ taken ∈ steps, FaithfulDiff (fun version _ => version) taken) ∧
    ¬ ∀ taken ∈ steps, NotLost (fun version _ => version) ['/'] taken := by
  have start : Run SamplePerforms (.new sampleVersion) [] (.new sampleVersion) := .nil
  have again : Performs (sampleMissed true) (.event sampleEvent (sampleDiffs false))
      ((sampleMissed true).updateCallback (sampleDiffs false) [(['/'], 0)] sampleEvent) :=
    .event (iteration_single rfl)
  have run := ((start.snoc (sampleLevel_performs _)).snoc (sampleMissed_performs true)).snoc again
  refine ⟨_, _, run, ?_, fun notLost => ?_⟩
  · intro taken member
    simp only [List.nil_append, List.cons_append, List.mem_cons, List.not_mem_nil, or_false] at member
    obtain rfl | rfl | rfl := member
    · exact faithfulDiff_create _
    · exact sampleDiffs_faithfulDiff _ _
    · exact sampleDiffs_faithfulDiff _ _
  · have last := notLost _ (List.mem_append_right _ (List.mem_singleton_self _)) sampleEvent
      (sampleDiffs false) rfl ⟨[], rfl, by simp⟩ _ rfl rfl
    cases congrArg VersionItem.name last

end Eafcc.CfgCenter
