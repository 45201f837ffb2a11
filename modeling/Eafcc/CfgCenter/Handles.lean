import Eafcc.CfgCenter.Events

namespace Eafcc.CfgCenter

open Eafcc.Model Eafcc.Storage Transition

/-! # Handles that stay live -/

variable {Pri : Type} {crates : Crates Pri}

/-- The loads for a namespace succeed in a step that makes any. -/
def LoadsSucceed (taken : Taken (CFGCenterInner Pri) (Operation crates)) : Prop :=
  match taken.label with
  | .create ns _ _ answers => CFGCenterInner.validNamespace ns = true →
      ∃ memStore, answers.memStorageNew ns taken.before.currentVersion = .ok memStore
  | .event e answers => ∀ ns id, taken.before.namespaces.lookup ns = some id →
      ∃ memStore, answers.memStorageNew ns e.newVersion = .ok memStore

def eventCount (steps : Operations crates) : Nat :=
  steps.countP fun taken => taken.label.isEvent

def Creates (ns : Str) (taken : Taken (CFGCenterInner Pri) (Operation crates)) : Prop :=
  ∃ level callback answers, taken.label = .create ns level callback answers

/-- The step, if it processes an event, leaves a handle with the snapshot loaded
for it, and its callback called once for each event so far. -/
def LiveAfter (ns : Str) (id : Nat) (callback : Bool) (earlier : Operations crates)
    (taken : Taken (CFGCenterInner Pri) (Operation crates)) : Prop :=
  ∀ e answers, taken.label = .event e answers →
    ∃ handle, taken.after.handles[id]? = some handle ∧
      answers.memStorageNew ns e.newVersion = .ok handle.currentMemstore ∧
      (callback = true → handle.called.length = eventCount (earlier ++ [taken]))

/-- No create call for the namespace stands before the step if it processes an
event. -/
def UnreplacedBefore (ns : Str) (earlier : Operations crates)
    (taken : Taken (CFGCenterInner Pri) (Operation crates)) : Prop :=
  taken.label.isEvent = true → ∀ other ∈ earlier, ¬ Creates ns other

variable {ns : Str} {id : Nat} {callback : Bool} {steps : Operations crates}
  {center center' : CFGCenterInner Pri} {op : Operation crates}
  {handle : NamespaceScopedCFGCenter Pri}

/-- Where a handle stands after some steps: in the map and called once for each
event, or replaced and called for some of them. -/
structure Standing (ns : Str) (id : Nat) (callback : Bool) (steps : Operations crates)
    (center : CFGCenterInner Pri) (handle : NamespaceScopedCFGCenter Pri) : Prop where
  stored : center.handles[id]? = some handle
  named : handle.namespaceName = ns
  level : handle.notifyLevel = .notifyWithoutChangedKeysByGlobal
  has : handle.callback = callback
  place : center.namespaces.lookup ns = some id ∧ (∀ other ∈ steps, ¬ Creates ns other) ∧
      handle.called.length = (if callback then eventCount steps else 0) ∨
    center.namespaces.lookup ns ≠ some id ∧ (∃ other ∈ steps, Creates ns other) ∧
      handle.called.length ≤ eventCount steps

theorem eventCount_snoc (taken : Taken (CFGCenterInner Pri) (Operation crates)) :
    eventCount (steps ++ [taken]) = eventCount steps + if taken.label.isEvent then 1 else 0 := by
  rw [eventCount, List.countP_append, List.countP_singleton]
  rfl

theorem updateCallback_called {memStore : MemStorage Pri} {changes : List Str}
    (level : handle.notifyLevel = .notifyWithoutChangedKeysByGlobal) :
    (handle.updateCallback memStore changes).called.length =
      handle.called.length + if handle.callback then 1 else 0 := by
  cases set : handle.callback <;> simp [NamespaceScopedCFGCenter.updateCallback, level, set]

theorem Standing.unlisted (standing : Standing ns id callback steps center handle)
    (absent : center.namespaces.lookup ns ≠ some id) (other : Str) :
    center.namespaces.lookup other ≠ some id := by
  intro found
  obtain ⟨handle', stored, named⟩ := center.filed other id found
  rw [standing.stored, Option.some.injEq] at stored
  rw [← stored, standing.named] at named
  exact absent (named ▸ found)

/-- What an event does to a handle, by its standing. -/
theorem Standing.event (standing : Standing ns id callback steps center handle) {e : StorageChangeEvent}
    {answers : Answers crates} {order : List (Str × Nat)} (iteration : center.Iteration order)
    (loads : LoadsSucceed ⟨center, .event e answers, center.updateCallback answers order e⟩) :
    let taken : Taken (CFGCenterInner Pri) (Operation crates) :=
      ⟨center, .event e answers, center.updateCallback answers order e⟩
    (∃ handle', Standing ns id callback (steps ++ [taken]) taken.after handle') ∧
      (UnreplacedBefore ns steps taken → LiveAfter ns id callback steps taken) ∧
      (callback = true → LiveAfter ns id callback steps taken → UnreplacedBefore ns steps taken) := by
  intro taken
  have keeps : ∀ other ∈ [taken], ¬ Creates ns other := by
    rintro other member ⟨level, cb, created, label⟩
    rw [List.mem_singleton.mp member] at label
    cases label
  have count : eventCount (steps ++ [taken]) = eventCount steps + 1 := eventCount_snoc taken
  rcases standing.place with ⟨found, unreplaced, called⟩ | ⟨absent, replaced, called⟩
  · obtain ⟨memStore, loaded⟩ := loads ns id found
    have updated := updateCallback_listed answers e iteration found standing.stored
    rw [onEvent_global standing.level (by rwa [standing.named])] at updated
    have calls : (handle.updateCallback memStore []).called.length =
        if callback then eventCount (steps ++ [taken]) else 0 := by
      rw [updateCallback_called standing.level, standing.has, called, count]
      cases callback <;> rfl
    refine ⟨⟨_, updated, ?_, ?_, ?_, .inl ⟨?_, ?_, calls⟩⟩, fun _ => ?_, fun _ _ _ => unreplaced⟩
    · simp [standing.named]
    · simp [standing.level]
    · simp [standing.has]
    · rw [updateCallback_namespaces]
      exact found
    · rw [List.forall_mem_append]
      exact ⟨unreplaced, keeps⟩
    · intro e' answers' label
      cases label
      refine ⟨_, updated, ?_, fun set => by rw [calls, if_pos set]⟩
      rw [NamespaceScopedCFGCenter.updateCallback_currentMemstore _ _ _ (by simp [standing.level]), loaded]
  · have kept := updateCallback_unlisted answers e iteration (standing.unlisted absent)
    obtain ⟨other, member, creates⟩ := replaced
    refine ⟨⟨handle, ?_, standing.named, standing.level, standing.has, .inr ⟨?_, ?_, ?_⟩⟩, ?_, ?_⟩
    · rw [kept]
      exact standing.stored
    · rw [updateCallback_namespaces]
      exact absent
    · exact ⟨other, by simp [member], creates⟩
    · omega
    · intro unreplaced
      exact absurd creates (unreplaced rfl other member)
    · intro set live
      obtain ⟨handle', stored', -, calls⟩ := live e answers rfl
      rw [kept, standing.stored, Option.some.injEq] at stored'
      have exact_ := calls set
      rw [← stored'] at exact_
      omega

/-- A create call replaces the handle if it is for its namespace. -/
theorem Standing.create (standing : Standing ns id callback steps center handle)
    (valid : CFGCenterInner.validNamespace ns = true) {other : Str} {level : UpdateNotifyLevel}
    {cb : Bool} {answers : Answers crates} {next : CFGCenterInner Pri}
    (created : (center.createNamespaceScopedCfgCenter answers other level cb).1 = next)
    (loads : LoadsSucceed ⟨center, .create other level cb answers, next⟩) :
    Standing ns id callback (steps ++ [⟨center, .create other level cb answers, next⟩]) next handle := by
  have count : eventCount (steps ++ [⟨center, .create other level cb answers, next⟩]) =
      eventCount steps := eventCount_snoc _
  have bound := (List.getElem?_eq_some_iff.mp standing.stored).1
  subst created
  refine ⟨create_handles standing.stored, standing.named, standing.level, standing.has, ?_⟩
  rw [count]
  by_cases same : ns = other
  · subst same
    obtain ⟨memStore, loaded⟩ : ∃ memStore, answers.memStorageNew ns center.currentVersion =
      .ok memStore := loads valid
    refine .inr ⟨?_, ⟨_, List.mem_append_right _ (List.mem_singleton_self _), level, cb, answers, rfl⟩, ?_⟩
    · rw [create_lookup_self valid loaded, ne_eq, Option.some.injEq]
      omega
    · rcases standing.place with ⟨-, -, called⟩ | ⟨-, -, called⟩
      · rw [called]
        split <;> omega
      · exact called
  · rw [create_lookup same]
    rcases standing.place with ⟨found, unreplaced, called⟩ | ⟨absent, ⟨earlier, member, creates⟩, called⟩
    · refine .inl ⟨found, ?_, called⟩
      rw [List.forall_mem_append, List.forall_mem_singleton]
      refine ⟨unreplaced, ?_⟩
      rintro ⟨level', cb', answers', label⟩
      cases label
      exact same rfl
    · exact .inr ⟨absent, ⟨earlier, by simp [member], creates⟩, called⟩

/-- After each event since its creation the handle is live. -/
def Live (ns : Str) (id : Nat) (callback : Bool) (steps : Operations crates) : Prop :=
  Each (LiveAfter ns id callback) steps

/-- No create call for the namespace stands before an event. -/
def Unreplaced (ns : Str) (steps : Operations crates) : Prop := Each (UnreplacedBefore ns) steps

theorem Standing.run {start : CFGCenterInner Pri} (run : Run Performs start steps center)
    (loads : ∀ taken ∈ steps, LoadsSucceed taken) (valid : CFGCenterInner.validNamespace ns = true)
    (first : Standing ns id callback ([] : Operations crates) start handle) :
    (∃ handle', Standing ns id callback steps center handle') ∧
      (Unreplaced ns steps → Live ns id callback steps) ∧
      (callback = true → Live ns id callback steps → Unreplaced ns steps) := by
  induction run with
  | nil => exact ⟨⟨handle, first⟩, fun _ => each_nil, fun _ _ => each_nil⟩
  | @snoc steps center next op earlier performs ih =>
      obtain ⟨before, last⟩ := List.forall_mem_append.mp loads
      obtain ⟨⟨handle', standing⟩, suffices_, needs⟩ := ih before
      have here := last _ (List.mem_singleton_self _)
      have step : (∃ handle'', Standing ns id callback (steps ++ [⟨center, op, next⟩]) next handle'') ∧
          (UnreplacedBefore ns steps ⟨center, op, next⟩ → LiveAfter ns id callback steps ⟨center, op, next⟩) ∧
          (callback = true → LiveAfter ns id callback steps ⟨center, op, next⟩ →
            UnreplacedBefore ns steps ⟨center, op, next⟩) := by
        cases performs with
        | create =>
            refine ⟨⟨handle', standing.create valid rfl here⟩, fun _ e answers label => ?_, ?_⟩
            · cases label
            · intro _ _ isEvent
              cases isEvent
        | event iteration => exact standing.event iteration here
      obtain ⟨stands, live, unreplaced⟩ := step
      refine ⟨stands, fun all => ?_, fun set all => ?_⟩
      · obtain ⟨all, now⟩ := each_snoc.mp all
        exact each_snoc.mpr ⟨suffices_ all, live now⟩
      · obtain ⟨all, now⟩ := each_snoc.mp all
        exact each_snoc.mpr ⟨needs set all, unreplaced set now⟩

/-- While all loads succeed, a handle at the global level is live after each event
if no create call for its namespace stands between its creation and an event,
and a handle with a callback only then. -/
theorem live_iff_unreplaced (crates : Crates Pri) (version : VersionItem) (steps : Operations crates)
    (center : CFGCenterInner Pri) (run : Run Performs (.new version) steps center)
    (loads : ∀ taken ∈ steps, LoadsSucceed taken) (before after : Operations crates)
    (creation : Taken (CFGCenterInner Pri) (Operation crates))
    (split : steps = before ++ creation :: after) (ns : Str) (callback : Bool)
    (answers : Answers crates)
    (label : creation.label = .create ns .notifyWithoutChangedKeysByGlobal callback answers) (id : Nat)
    (created : (creation.before.createNamespaceScopedCfgCenter answers ns
      .notifyWithoutChangedKeysByGlobal callback).2 = .ok id) :
    (Unreplaced ns after → Live ns id callback after) ∧
      (callback = true → (Live ns id callback after ↔ Unreplaced ns after)) := by
  subst split
  obtain ⟨-, performs, later⟩ := run.split_at
  obtain ⟨valid, rfl, memStore, loaded, inserted⟩ := create_eq_ok created
  obtain ⟨center₀, op, center₁⟩ := creation
  obtain rfl := label
  change Performs center₀ (.create ns .notifyWithoutChangedKeysByGlobal callback answers) center₁ at performs
  cases performs
  have first : Standing ns center₀.handles.length callback ([] : Operations crates)
      (center₀.createNamespaceScopedCfgCenter answers ns .notifyWithoutChangedKeysByGlobal callback).1
      (.new ns memStore .notifyWithoutChangedKeysByGlobal callback) := by
    rw [inserted]
    refine ⟨by simp [CFGCenterInner.insert], rfl, rfl, rfl, .inl ⟨Finmap.lookup_insert _, by simp, ?_⟩⟩
    cases callback <;> rfl
  obtain ⟨-, suffices_, needs⟩ := Standing.run later (fun taken member => loads taken (by simp [member]))
    valid first
  exact ⟨suffices_, fun set => ⟨needs set, suffices_⟩⟩

/-! ### One namespace created once or twice -/

def sampleReplaced : CFGCenterInner Nat :=
  (sampleCreated.createNamespaceScopedCfgCenter sampleAnswers ['/']
    .notifyWithoutChangedKeysByGlobal true).1

theorem sampleReplaced_iteration : sampleReplaced.Iteration [(['/'], 1)] := by
  have entries : sampleReplaced.namespaces = Finmap.insert ['/'] 1 (Finmap.insert ['/'] 0 ∅) := rfl
  exact iteration_single (entries.trans (Finmap.insert_insert _))

def sampleCreate : Operation sampleCrates :=
  .create ['/'] .notifyWithoutChangedKeysByGlobal true sampleAnswers

theorem sampleCreate_loads (center next : CFGCenterInner Nat) :
    LoadsSucceed ⟨center, sampleCreate, next⟩ := fun _ => ⟨_, rfl⟩

theorem sampleEvent_loads {center next : CFGCenterInner Nat} {id : Nat}
    (iteration : center.Iteration [(['/'], id)]) :
    LoadsSucceed ⟨center, (.event sampleEvent sampleAnswers : Operation sampleCrates), next⟩ := by
  intro ns other found
  have listed := (iteration.2 ns other).mpr found
  simp only [List.mem_singleton, Prod.mk.injEq] at listed
  rw [listed.1]
  exact ⟨_, rfl⟩

theorem sampleCreate_performs :
    Performs (.new sampleVersion) sampleCreate sampleCreated := .create

theorem live_iff_unreplaced_sample : ∃ steps center,
    Run Performs (.new sampleVersion) steps center ∧
    ∃ creation after, steps = creation :: after ∧ after.length = 1 ∧ creation.label = sampleCreate ∧
      Live ['/'] 0 true after := by
  have start : Run SamplePerforms (.new sampleVersion) [] (.new sampleVersion) := .nil
  have processed : Performs sampleCreated (.event sampleEvent sampleAnswers : Operation sampleCrates)
    sampleUpdated := .event sampleCreated_iteration
  have run := (start.snoc sampleCreate_performs).snoc processed
  obtain ⟨live, -⟩ := live_iff_unreplaced sampleCrates sampleVersion _ _ run
    (List.forall_mem_append.mpr ⟨List.forall_mem_singleton.mpr (sampleCreate_loads _ _),
      List.forall_mem_singleton.mpr (sampleEvent_loads sampleCreated_iteration)⟩)
    [] _ _ rfl ['/'] true sampleAnswers rfl 0 rfl
  refine ⟨_, _, run, _, _, rfl, rfl, rfl, live ?_⟩
  exact each_snoc.mpr ⟨each_nil, fun _ other member => by cases member⟩

/-- A second create call for a namespace cuts the first handle off. -/
theorem handle_frozen : ∃ steps center,
    Run Performs (.new sampleVersion) steps center ∧ (∀ taken ∈ steps, LoadsSucceed taken) ∧
    ∃ creation after, steps = creation :: after ∧ creation.label = sampleCreate ∧
      (creation.before.createNamespaceScopedCfgCenter sampleAnswers ['/']
        .notifyWithoutChangedKeysByGlobal true).2 = .ok 0 ∧
      ¬ Live ['/'] 0 true after := by
  have start : Run SamplePerforms (.new sampleVersion) [] (.new sampleVersion) := .nil
  have replaced : Performs sampleCreated sampleCreate sampleReplaced := .create
  have processed : Performs sampleReplaced (.event sampleEvent sampleAnswers : Operation sampleCrates)
    (sampleReplaced.updateCallback sampleAnswers [(['/'], 1)] sampleEvent) :=
    .event sampleReplaced_iteration
  have run := ((start.snoc sampleCreate_performs).snoc replaced).snoc processed
  refine ⟨_, _, run, ?_, _, _, rfl, rfl, rfl, ?_⟩
  · intro taken member
    simp only [List.nil_append, List.cons_append, List.mem_cons, List.not_mem_nil, or_false] at member
    obtain rfl | rfl | rfl := member
    · exact sampleCreate_loads _ _
    · exact sampleCreate_loads _ _
    · exact sampleEvent_loads sampleReplaced_iteration
  · intro live
    obtain ⟨-, now⟩ := each_snoc.mp live
    obtain ⟨handle, stored, -, calls⟩ := now sampleEvent sampleAnswers rfl
    have frozen : handle.called = [] := by
      cases stored
      rfl
    have counted := calls rfl
    rw [frozen] at counted
    cases counted

end Eafcc.CfgCenter
