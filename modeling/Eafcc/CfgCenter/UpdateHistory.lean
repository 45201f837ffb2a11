import Eafcc.CfgCenter.Sequential

namespace Eafcc.CfgCenter

open Eafcc.Model Eafcc.RuleEngine Eafcc.Storage Transition

/-! # The history of a namespace

The events that the threads process come in one order, that of the storing of
their versions.  Each namespace goes through all of them from its creation on.
-/

variable {Pri : Type} {crates : Crates Pri}

abbrev Steps (crates : Crates Pri) := List (Taken (State Pri) (Nat × Action crates))

/-! ## Events and their outcomes -/

/-- An event for a namespace, with the snapshot loaded for it or the error. -/
abbrev Outcome (Pri : Type) := VersionItem × Except MemoryIndexError (MemStorage Pri)

def Action.processes : Action crates → List VersionItem
  | .setVersion version => [version]
  | _ => []

/-- What an action brings to a handle at the global level: the failed load of an
event, or the installation of a loaded snapshot. -/
def Action.outcomes (id : Nat) : Action crates → List (Outcome Pri)
  | .load ns other e answers =>
      match answers.memStorageNew ns e.newVersion with
      | .error reason => if other = id then [(e.newVersion, .error reason)] else []
      | .ok _ => []
  | .install _ other e newMemStore => if other = id then [(e.newVersion, .ok newMemStore)] else []
  | _ => []

/-- The versions of the events whose processing ended, in order. -/
def processed (steps : Steps crates) : List VersionItem :=
  steps.flatMap fun taken => taken.label.2.processes

def outcomes (id : Nat) (steps : Steps crates) : List (Outcome Pri) :=
  steps.flatMap fun taken => taken.label.2.outcomes id

/-- The event that an update has already brought to a namespace while its
version is not stored yet. -/
def Thread.delivered (ns : Str) : Thread Pri → List VersionItem
  | .updateLoop e rest => if ns ∈ rest.map Prod.fst then [] else [e.newVersion]
  | .updateInstall e entry _ _ rest =>
      if ns ∈ (entry :: rest).map Prod.fst then [] else [e.newVersion]
  | _ => []

def State.inProgress (s : State Pri) (ns : Str) : List VersionItem :=
  match s.holder .namespaces with
  | none => []
  | some t => (s.threads t).delivered ns

/-! ## What outcomes do to a handle -/

def successes (outs : List (Outcome Pri)) : List (MemStorage Pri) :=
  outs.filterMap fun out => out.2.toOption

/-- The calls of a callback while the snapshots of a list are installed in turn. -/
def differs (created : MemStorage Pri) (installed : List (MemStorage Pri)) : List (Differ Pri) :=
  (created :: installed).zipWith (fun oldMemStore newMemStore =>
    { notifyLevel := .notifyWithoutChangedKeysByGlobal, oldMemStore, newMemStore, changedFiles := [] })
    installed

namespace NamespaceScopedCFGCenter

def after (handle : NamespaceScopedCFGCenter Pri) (outs : List (Outcome Pri)) :
    NamespaceScopedCFGCenter Pri :=
  outs.foldl (fun handle out =>
    match out.2 with
    | .ok newMemStore => handle.updateCallback newMemStore []
    | .error _ => handle) handle

variable {handle : NamespaceScopedCFGCenter Pri} {outs : List (Outcome Pri)}

theorem after_append (more : List (Outcome Pri)) :
    handle.after (outs ++ more) = (handle.after outs).after more := List.foldl_append

theorem after_global (level : handle.notifyLevel = .notifyWithoutChangedKeysByGlobal) :
    (handle.after outs).currentMemstore = (successes outs).getLast?.getD handle.currentMemstore ∧
    (handle.after outs).callback = handle.callback ∧
    (handle.after outs).called = handle.called ++
      if handle.callback then differs handle.currentMemstore (successes outs) else [] := by
  induction outs generalizing handle with
  | nil => simp [after, successes, differs]
  | cons out outs ih =>
      obtain ⟨version, result⟩ := out
      cases result with
      | error reason => simpa [after, successes, Except.toOption] using ih level
      | ok newMemStore =>
          have level' : (handle.updateCallback newMemStore []).notifyLevel =
              .notifyWithoutChangedKeysByGlobal := by simp [level]
          obtain ⟨served, callback, called⟩ := ih level'
          have first : handle.after ((version, .ok newMemStore) :: outs) =
              (handle.updateCallback newMemStore []).after outs := rfl
          have stores : successes ((version, .ok newMemStore) :: outs) =
              newMemStore :: successes outs := rfl
          rw [first, stores, served, callback, called, List.getLast?_cons]
          refine ⟨?_, by simp, ?_⟩
          · rw [updateCallback_currentMemstore _ _ _ (by simp [level])]
            rfl
          · cases set : handle.callback with
            | false => simp [updateCallback, level, set]
            | true => simp [updateCallback, level, set, differs]

end NamespaceScopedCFGCenter

/-! ## One step -/

variable {center center' : CFGCenterInner Pri} {thread next : Thread Pri} {action : Action crates}
  {s s' : State Pri} {ns : Str} {id : Nat} {handle : NamespaceScopedCFGCenter Pri}

theorem loadChanged_global_none {answers : Answers crates} {oldVersion newVersion : VersionItem}
    (skipped : CFGCenterInner.loadChanged answers .notifyWithoutChangedKeysByGlobal oldVersion
      newVersion ns = none) : ∃ reason, answers.memStorageNew ns newVersion = .error reason := by
  unfold CFGCenterInner.loadChanged at skipped
  cases loaded : answers.memStorageNew ns newVersion with
  | error reason => exact ⟨reason, rfl⟩
  | ok newMemStore => simp [loaded] at skipped

theorem loadChanged_global_some {answers : Answers crates} {oldVersion newVersion : VersionItem}
    {newMemStore : MemStorage Pri} {changes : List Str}
    (loads : CFGCenterInner.loadChanged answers .notifyWithoutChangedKeysByGlobal oldVersion
      newVersion ns = some (newMemStore, changes)) :
    answers.memStorageNew ns newVersion = .ok newMemStore ∧ changes = [] := by
  unfold CFGCenterInner.loadChanged at loads
  cases loaded : answers.memStorageNew ns newVersion with
  | error reason => simp [loaded] at loads
  | ok store => simpa [loaded, eq_comm] using loads

/-- A step of a thread changes the version only as it ends an event. -/
theorem Moves.currentVersion (moves : Moves crates center thread action next center') :
    center'.currentVersion = action.processes.getLast?.getD center.currentVersion := by
  cases moves <;> rfl

theorem Moves.processes_outside (moves : Moves crates center thread action next center')
    {mutex : Mutex} (outside : thread.holds mutex = false) : action.processes = [] := by
  cases moves with
  | updateEnd => simp [Thread.holds] at outside
  | _ => rfl

theorem Moves.outcomes_outside (moves : Moves crates center thread action next center')
    (outside : thread.holds .namespaces = false) : action.outcomes id = [] := by
  cases moves with
  | updateSkip | updateLoad | updateInstall => simp [Thread.holds] at outside
  | _ => rfl

theorem Thread.delivered_outside (outside : thread.holds .namespaces = false) :
    thread.delivered ns = [] := by
  cases thread <;> simp_all [Thread.holds, Thread.delivered]

/-- The entry of a namespace after a step is that before it, unless the step
inserts it. -/
theorem Moves.lookup (moves : Moves crates center thread action next center')
    (found : center'.namespaces.lookup ns = some id) :
    center.namespaces.lookup ns = some id ∨
      ∃ handle, thread = .createInsert handle ∧ handle.namespaceName = ns ∧
        next = .createUnlock ∧ action = .insert ns id ∧ center'.handles[id]? = some handle := by
  cases moves with
  | @createInsert handle =>
      by_cases same : ns = handle.namespaceName
      · subst same
        rw [CFGCenterInner.insert, Finmap.lookup_insert, Option.some.injEq] at found
        subst found
        exact .inr ⟨handle, rfl, rfl, rfl, rfl, by simp [CFGCenterInner.insert]⟩
      · rw [CFGCenterInner.insert, Finmap.lookup_insert_of_ne _ same] at found
        exact .inl found
  | _ => exact .inl found

theorem Action.outcomes_load_other {answers : Answers crates} {e : StorageChangeEvent} {otherId : Nat}
    (differ : otherId ≠ id) : (Action.load ns otherId e answers).outcomes id = [] := by
  cases loaded : answers.memStorageNew ns e.newVersion <;> simp [Action.outcomes, loaded, differ]

theorem Moves.notifyLevel {handle' : NamespaceScopedCFGCenter Pri}
    (moves : Moves crates center thread action next center')
    (stored : center.handles[id]? = some handle) (stored' : center'.handles[id]? = some handle') :
    handle'.notifyLevel = handle.notifyLevel := by
  cases moves with
  | createInsert =>
      have bound := (List.getElem?_eq_some_iff.mp stored).1
      rw [CFGCenterInner.insert, List.getElem?_append_left bound, stored, Option.some.injEq] at stored'
      rw [stored']
  | @updateInstall e other otherId rest newMemStore changes =>
      simp only [CFGCenterInner.install, List.getElem?_modify, stored] at stored'
      by_cases same : otherId = id
      · obtain rfl : handle.updateCallback newMemStore changes = handle' := by simpa [same] using stored'
        simp
      · obtain rfl : handle = handle' := by simpa [same] using stored'
        rfl
  | _ =>
      obtain rfl : handle = handle' := Option.some.inj (stored.symm.trans stored')
      rfl

/-- The events that reach a namespace are those whose processing ends, each once,
and its handle changes by their outcomes. -/
theorem Moves.flow (moves : Moves crates center thread action next center')
    (work : thread.Working crates center) (found : center.namespaces.lookup ns = some id)
    (stored : center.handles[id]? = some handle)
    (level : handle.notifyLevel = .notifyWithoutChangedKeysByGlobal) :
    thread.delivered ns ++ (action.outcomes id).map Prod.fst =
        action.processes ++ next.delivered ns ∧
      center'.handles[id]? = some (handle.after (action.outcomes id)) ∧
      ∀ out ∈ action.outcomes id, ∀ newMemStore, out.2 = .ok newMemStore → newMemStore.version = out.1 := by
  cases moves with
  | @createInsert created =>
      have bound := (List.getElem?_eq_some_iff.mp stored).1
      refine ⟨rfl, ?_, by simp [Action.outcomes]⟩
      exact (List.getElem?_append_left bound).trans stored
  | @updateLock e order iteration =>
      have member := List.mem_map_of_mem (f := Prod.fst) ((iteration.2 ns id).mpr found)
      refine ⟨?_, stored, by simp [Action.outcomes]⟩
      simp only [Thread.delivered, Action.outcomes, Action.processes]
      rw [if_pos member]
      rfl
  | @updateSkip e other otherId rest answers otherHandle otherStored skipped =>
      rcases center.same_or_apart found (work.2 (other, otherId) (by simp)) with ⟨rfl, rfl⟩ | ⟨differ, apart⟩
      · rw [stored, Option.some.injEq] at otherStored
        rw [← otherStored, level] at skipped
        obtain ⟨reason, failed⟩ := loadChanged_global_none skipped
        have last : other ∉ rest.map Prod.fst := (List.nodup_cons.mp work.1).1
        simp [Thread.delivered, Action.outcomes, Action.processes, failed, last, stored,
          NamespaceScopedCFGCenter.after]
      · rw [Action.outcomes_load_other apart]
        refine ⟨?_, stored, by simp⟩
        simp only [Thread.delivered, Action.processes, List.map_cons, List.mem_cons, differ, false_or,
          List.map_nil, List.append_nil, List.nil_append]
  | @updateLoad e other otherId rest answers otherHandle newMemStore changes otherStored loads =>
      have silent : (Action.load other otherId e answers).outcomes id = [] := by
        rcases center.same_or_apart found (work.2 (other, otherId) (by simp)) with ⟨rfl, rfl⟩ | ⟨-, apart⟩
        · rw [stored, Option.some.injEq] at otherStored
          rw [← otherStored, level] at loads
          simp [Action.outcomes, (loadChanged_global_some loads).1]
        · exact Action.outcomes_load_other apart
      rw [silent]
      exact ⟨by simp [Thread.delivered, Action.processes], stored, by simp⟩
  | @updateInstall e other otherId rest newMemStore changes =>
      obtain ⟨otherHandle, otherStored, answers, oldVersion, loads⟩ := work.2
      rcases center.same_or_apart found (work.1.2 (other, otherId) (by simp)) with ⟨rfl, rfl⟩ | ⟨differ, apart⟩
      · simp only [stored, Option.some.injEq] at otherStored
        rw [← otherStored, level] at loads
        obtain ⟨loaded, rfl⟩ := loadChanged_global_some loads
        have last : other ∉ rest.map Prod.fst := (List.nodup_cons.mp work.1.1).1
        refine ⟨by simp [Thread.delivered, Action.outcomes, Action.processes, last], ?_, ?_⟩
        · simp [CFGCenterInner.install, stored, Action.outcomes, NamespaceScopedCFGCenter.after]
        · simp [Action.outcomes, answers.version_eq loaded]
      · refine ⟨?_, ?_, ?_⟩
        · simp only [Thread.delivered, Action.outcomes, Action.processes, List.map_cons, List.mem_cons,
            differ, false_or, apart, if_false, List.map_nil, List.append_nil, List.nil_append]
        · simp [CFGCenterInner.install, stored, Action.outcomes, NamespaceScopedCFGCenter.after, apart]
        · simp [Action.outcomes, apart]
  | updateEnd => exact ⟨by simp [Thread.delivered, Action.outcomes, Action.processes], stored, by
      simp [Action.outcomes]⟩
  | _ => exact ⟨rfl, stored, by simp [Action.outcomes]⟩

theorem State.Locked.inProgress_eq (locked : s.Locked) {t : Nat}
    (holds : (s.threads t).holds .namespaces = true) : s.inProgress ns = (s.threads t).delivered ns := by
  simp [State.inProgress, (locked .namespaces t).mpr holds]

theorem State.Locked.inProgress_eq_nil (locked : s.Locked)
    (free : ∀ t, (s.threads t).holds .namespaces = true → (s.threads t).delivered ns = []) :
    s.inProgress ns = [] := by
  cases held : s.holder .namespaces with
  | none => simp [State.inProgress, held]
  | some t => simpa [State.inProgress, held] using free t ((locked _ t).mp held)

/-- What is in progress after a step is what was before, with the outcomes that
the step brings and without the event that it ends. -/
theorem inProgress_flow {t : Nat} (locked : s.Locked) (locked' : s'.Locked)
    (moves : Moves crates s.center (s.threads t) action next center') (now : s'.threads t = next)
    (others : ∀ u, u ≠ t → s'.threads u = s.threads u)
    (flow : (s.threads t).delivered ns ++ (action.outcomes id).map Prod.fst =
      action.processes ++ next.delivered ns) :
    s.inProgress ns ++ (action.outcomes id).map Prod.fst = action.processes ++ s'.inProgress ns := by
  subst now
  have alone : ∀ u, (s.threads u).holds .namespaces = true →
      (s'.threads t).holds .namespaces = true → u = t := by
    intro u held holds
    by_contra other
    rw [← others u other] at held
    exact other (locked'.unique held holds)
  cases inside : (s.threads t).holds .namespaces with
  | true =>
      have stays : s'.inProgress ns = (s'.threads t).delivered ns := by
        cases inside' : (s'.threads t).holds .namespaces with
        | true => exact locked'.inProgress_eq inside'
        | false =>
            rw [Thread.delivered_outside inside']
            refine locked'.inProgress_eq_nil fun u holds => ?_
            have other : u ≠ t := fun same => by simp [same, inside'] at holds
            rw [others u other] at holds
            exact absurd (locked.unique holds inside) other
      rw [locked.inProgress_eq inside, stays, flow]
  | false =>
      rw [moves.outcomes_outside inside, moves.processes_outside inside] at flow ⊢
      rw [Thread.delivered_outside inside] at flow
      simp only [List.map_nil, List.append_nil, List.nil_append] at flow ⊢
      cases inside' : (s'.threads t).holds .namespaces with
      | true =>
          rw [locked'.inProgress_eq inside', ← flow]
          refine locked.inProgress_eq_nil fun u holds => ?_
          rw [alone u holds inside']
          exact Thread.delivered_outside inside
      | false =>
          have apart : ∀ u, (s'.threads u).holds .namespaces = true → u ≠ t :=
            fun u holds same => by simp [same, inside'] at holds
          cases held : s.holder .namespaces with
          | none =>
              rw [locked'.inProgress_eq_nil, State.inProgress, held]
              intro u holds
              have holds' := holds
              rw [others u (apart u holds), ← locked .namespaces u, held] at holds'
              contradiction
          | some u =>
              have holds := (locked .namespaces u).mp held
              have other : u ≠ t := fun same => by simp [same, inside] at holds
              rw [locked.inProgress_eq holds, locked'.inProgress_eq (t := u) (by rwa [others u other]),
                others u other]

/-! ## Runs -/

/-- The version of a center that started with one, after the steps of a run. -/
def lastVersion (version : VersionItem) (steps : Steps crates) : VersionItem :=
  (processed steps).getLast?.getD version

/-- A thread has loaded a snapshot for a namespace, and since then it has loaded no other
and no event was processed. -/
structure Creation (version : VersionItem) (t : Nat) (ns : Str) (before : Steps crates)
    (load : Taken (State Pri) (Nat × Action crates)) (window : Steps crates)
    (created : MemStorage Pri) : Prop where
  loaded : ∃ answers : Answers crates, load.label = (t, .createLoad ns answers) ∧
    answers.memStorageNew ns load.before.center.currentVersion = .ok created
  version_eq : created.version = lastVersion version before
  quiet : processed window = []
  own : ∀ taken ∈ window, taken.label.1 = t → ∀ ns answers, taken.label.2 ≠ .createLoad ns answers

/-- What a run has told so far. -/
structure Chronicle (version : VersionItem) (steps : Steps crates) (s : State Pri) : Prop where
  current : s.center.currentVersion = lastVersion version steps
  creating : ∀ t handle, (s.threads t = .createLock handle ∨ s.threads t = .createInsert handle) →
    ∃ before load window created level callback,
      steps = before ++ load :: window ∧
      Creation version t handle.namespaceName before load window created ∧
      handle = .new handle.namespaceName created level callback
  recorded : ∀ ns id handle, s.center.namespaces.lookup ns = some id →
    s.center.handles[id]? = some handle → handle.notifyLevel = .notifyWithoutChangedKeysByGlobal →
    ∃ t before load window insertion after created callback,
      steps = before ++ load :: window ++ insertion :: after ∧
      Creation version t ns before load window created ∧
      insertion.label = (t, .insert ns id) ∧
      (outcomes id after).map Prod.fst = processed after ++ s.inProgress ns ∧
      (∀ out ∈ outcomes id after, ∀ newMemStore, out.2 = .ok newMemStore →
        newMemStore.version = out.1) ∧
      handle = (NamespaceScopedCFGCenter.new ns created .notifyWithoutChangedKeysByGlobal callback).after
        (outcomes id after)

variable {version : VersionItem} {steps : Steps crates}

theorem processed_append (first second : Steps crates) :
    processed (first ++ second) = processed first ++ processed second := List.flatMap_append

theorem processed_cons (taken : Taken (State Pri) (Nat × Action crates)) (steps : Steps crates) :
    processed (taken :: steps) = taken.label.2.processes ++ processed steps := List.flatMap_cons

theorem processed_singleton (taken : Taken (State Pri) (Nat × Action crates)) :
    processed [taken] = taken.label.2.processes := List.flatMap_singleton _ _

theorem outcomes_singleton (taken : Taken (State Pri) (Nat × Action crates)) :
    outcomes id [taken] = taken.label.2.outcomes id := List.flatMap_singleton _ _

theorem outcomes_append (first second : Steps crates) :
    outcomes id (first ++ second) = outcomes id first ++ outcomes id second := List.flatMap_append

theorem lastVersion_snoc (taken : Taken (State Pri) (Nat × Action crates)) :
    lastVersion version (steps ++ [taken]) =
      taken.label.2.processes.getLast?.getD (lastVersion version steps) := by
  rw [lastVersion, processed_append, processed_singleton, List.getLast?_append]
  cases taken.label.2.processes.getLast? <;> rfl

theorem Creation.extend {t : Nat} {before window : Steps crates}
    {load taken : Taken (State Pri) (Nat × Action crates)} {created : MemStorage Pri}
    (creation : Creation version t ns before load window created)
    (silent : taken.label.2.processes = [])
    (own : taken.label.1 = t → ∀ ns answers, taken.label.2 ≠ .createLoad ns answers) :
    Creation version t ns before load (window ++ [taken]) created where
  loaded := creation.loaded
  version_eq := creation.version_eq
  quiet := by rw [processed_append, processed_singleton, silent, creation.quiet, List.append_nil]
  own := List.forall_mem_append.mpr ⟨creation.own, List.forall_mem_singleton.mpr own⟩

theorem Chronicle.start (crates : Crates Pri) (version : VersionItem) :
    Chronicle version ([] : Steps crates) (State.start version) where
  current := rfl
  creating t handle standing := by simp [State.start] at standing
  recorded ns id handle found := by simp [State.start, CFGCenterInner.new] at found

theorem Chronicle.step {label : Nat × Action crates} (chronicle : Chronicle version steps s)
    (valid : s.Valid crates) (step : Step crates s label s') :
    Chronicle version (steps ++ [⟨s, label, s'⟩]) s' := by
  have locked' := step.locked valid.locked
  cases step with
  | @run t action next center moves permitted =>
      refine ⟨?_, ?_, ?_⟩
      · rw [lastVersion_snoc, ← chronicle.current]
        exact moves.currentVersion
      · intro u handle standing
        by_cases own : u = t
        · subst own
          simp only [Function.update_self] at standing
          rcases standing with rfl | rfl
          · obtain ⟨ns, level, callback, created, answers, rfl, loaded, rfl⟩ := moves.enters_createLock
            refine ⟨steps, _, [], created, level, callback, rfl, ⟨⟨answers, rfl, loaded⟩, ?_, rfl, by simp⟩, rfl⟩
            rw [answers.version_eq loaded, chronicle.current]
          · obtain ⟨waiting, rfl⟩ := moves.enters_createInsert
            obtain ⟨before, load, window, created, level, callback, rfl, creation, same⟩ :=
              chronicle.creating u handle (.inl waiting)
            exact ⟨before, load, _, created, level, callback, List.append_assoc _ _ _,
              creation.extend rfl (fun _ _ _ other => by cases other), same⟩
        · simp only [Function.update_of_ne own] at standing
          obtain ⟨before, load, window, created, level, callback, rfl, creation, same⟩ :=
            chronicle.creating u handle standing
          have holds : (s.threads u).holds .currentVersion = true := by
            rcases standing with waiting | inserting
            · simp [waiting, Thread.holds]
            · simp [inserting, Thread.holds]
          have outside : (s.threads t).holds .currentVersion = false := by
            by_contra held
            exact own (valid.locked.unique holds (by simpa using held))
          exact ⟨before, load, _, created, level, callback, List.append_assoc _ _ _,
            creation.extend (moves.processes_outside outside) (fun other => absurd other.symm own), same⟩
      · intro ns id handle found stored level
        rcases moves.lookup found with earlier | ⟨inserted, standing, named, rfl, rfl, stored'⟩
        · obtain ⟨earlierHandle, earlierStored, -⟩ := s.center.filed ns id earlier
          have sameLevel := moves.notifyLevel earlierStored stored
          rw [level] at sameLevel
          obtain ⟨flow, advanced, versions⟩ :=
            moves.flow (valid.working t) earlier earlierStored sameLevel.symm
          obtain ⟨creator, before, load, window, insertion, after, created, callback, rfl, creation,
            label, delivered, dated, applied⟩ := chronicle.recorded ns id earlierHandle earlier
              earlierStored sameLevel.symm
          rw [advanced, Option.some.injEq] at stored
          refine ⟨creator, before, load, window, insertion, after ++ [_], created, callback,
            List.append_assoc _ _ _, creation, label, ?_, ?_, ?_⟩
          · have progress := inProgress_flow valid.locked locked' moves (Function.update_self _ _ _)
              (fun u other => Function.update_of_ne other _ _) flow
            rw [outcomes_append, outcomes_singleton, List.map_append, delivered, List.append_assoc,
              progress, processed_append, processed_singleton, List.append_assoc]
          · rw [outcomes_append, outcomes_singleton, List.forall_mem_append]
            exact ⟨dated, versions⟩
          · rw [outcomes_append, outcomes_singleton, NamespaceScopedCFGCenter.after_append, ← applied]
            exact stored.symm
        · obtain ⟨before, load, window, created, level', callback, rfl, creation, same⟩ :=
            chronicle.creating t inserted (.inr standing)
          rw [stored, Option.some.injEq] at stored'
          subst stored'
          rw [same] at level
          obtain rfl : level' = .notifyWithoutChangedKeysByGlobal := level
          rw [named] at creation same
          refine ⟨t, before, load, window, _, [], created, callback, rfl, creation, rfl, ?_, ?_, same⟩
          · rw [locked'.inProgress_eq (t := t) (by simp [Thread.holds])]
            simp [outcomes, processed, Thread.delivered]
          · simp [outcomes]

theorem Chronicle.of_run (run : Run (Step crates) (State.start version) steps s) :
    Chronicle version steps s :=
  run.history (State.start_valid crates version) (fun _ _ _ valid step => step.valid valid)
    (Chronicle.start crates version) fun _ _ _ _ valid chronicle step => chronicle.step valid step

/-! ## While all loads succeed -/

def Action.LoadSucceeds : Action crates → Prop
  | .load ns _ e answers => ∃ newMemStore, answers.memStorageNew ns e.newVersion = .ok newMemStore
  | _ => True

theorem outcomes_ok (loads : ∀ taken ∈ steps, taken.label.2.LoadSucceeds) :
    ∀ out ∈ outcomes id steps, ∃ newMemStore, out.2 = .ok newMemStore := by
  intro out member
  obtain ⟨taken, listed, brought⟩ := List.mem_flatMap.mp member
  have succeeds := loads taken listed
  cases action : taken.label.2 with
  | load ns other e answers =>
      rw [action] at succeeds brought
      obtain ⟨newMemStore, loaded⟩ := succeeds
      simp [Action.outcomes, loaded] at brought
  | install ns other e newMemStore =>
      rw [action] at brought
      simp only [Action.outcomes] at brought
      split at brought
      · obtain rfl := List.mem_singleton.mp brought
        exact ⟨newMemStore, rfl⟩
      · simp at brought
  | _ => simp [action, Action.outcomes] at brought

theorem successes_versions {outs : List (Outcome Pri)}
    (ok : ∀ out ∈ outs, ∃ newMemStore, out.2 = .ok newMemStore)
    (dated : ∀ out ∈ outs, ∀ newMemStore, out.2 = .ok newMemStore → newMemStore.version = out.1) :
    (successes outs).map MemStorage.version = outs.map Prod.fst := by
  induction outs with
  | nil => rfl
  | cons out outs ih =>
      obtain ⟨newMemStore, result⟩ := ok out (by simp)
      have first := dated out (by simp) newMemStore result
      have rest := ih (fun out member => ok out (by simp [member]))
        fun out member => dated out (by simp [member])
      simpa [successes, result, Except.toOption, first] using rest

theorem inProgress_idle (idle : ∀ t, s.threads t = .idle) : s.inProgress ns = [] := by
  cases held : s.holder .namespaces <;> simp [State.inProgress, held, idle, Thread.delivered]

/-- What a run of any number of threads does to a namespace at the global level:
its snapshot was loaded from the version current then, no event was processed
before it was inserted, and from then on every event processed reached it once,
in order; it serves the last snapshot loaded, and its callback was called for
each of them with the one served before: the differ of each call answers with both. -/
theorem update_history (crates : Crates Pri) (version : VersionItem) (steps : Steps crates)
    (s : State Pri) (run : Run (Step crates) (State.start version) steps s) (ns : Str) (id : Nat)
    (handle : NamespaceScopedCFGCenter Pri) (present : s.center.namespaces.lookup ns = some id)
    (stored : s.center.handles[id]? = some handle)
    (level : handle.notifyLevel = .notifyWithoutChangedKeysByGlobal) :
    ∃ t before load window insertion after created,
      steps = before ++ load :: window ++ insertion :: after ∧
      Creation version t ns before load window created ∧
      insertion.label = (t, .insert ns id) ∧
      (outcomes id after).map Prod.fst = processed after ++ s.inProgress ns ∧
      (∀ out ∈ outcomes id after, ∀ newMemStore, out.2 = .ok newMemStore →
        newMemStore.version = out.1) ∧
      handle.currentMemstore = (successes (outcomes id after)).getLast?.getD created ∧
      handle.called = (if handle.callback then differs created (successes (outcomes id after)) else []) ∧
      (∀ (i : Nat) (differ : Differ Pri), handle.called[i]? = some differ → ∃ oldMemStore newMemStore,
        (created :: successes (outcomes id after))[i]? = some oldMemStore ∧
        (successes (outcomes id after))[i]? = some newMemStore ∧
        ∀ [LinearOrder Pri] (sort : SortUnstableBy Pri) (rules : List IdxRuleItem) (whoami : MatchContext)
          (keys : List Str) (viewMode : ViewMode) (needExplain : Bool),
          differ.getFromOld sort rules whoami keys viewMode needExplain =
            Querier.get sort oldMemStore rules whoami keys viewMode needExplain ∧
          differ.getFromNew sort rules whoami keys viewMode needExplain =
            Querier.get sort newMemStore rules whoami keys viewMode needExplain) ∧
      ((∀ taken ∈ steps, taken.label.2.LoadSucceeds) → (∀ t, s.threads t = .idle) →
        handle.currentMemstore.version = s.center.currentVersion) := by
  have chronicle := Chronicle.of_run run
  obtain ⟨t, before, load, window, insertion, after, created, callback, rfl, creation, label, delivered,
    dated, rfl⟩ := chronicle.recorded ns id handle present stored level
  have fresh : (NamespaceScopedCFGCenter.new ns created .notifyWithoutChangedKeysByGlobal
      callback).notifyLevel = .notifyWithoutChangedKeysByGlobal := rfl
  obtain ⟨served, kept, called⟩ := NamespaceScopedCFGCenter.after_global fresh
  refine ⟨t, before, load, window, insertion, after, created, rfl, creation, label, delivered, dated,
    served, ?_, fun i differ found => ?_, fun loads idle => ?_⟩
  · rw [called, kept]
    rfl
  · have member : (differs created (successes (outcomes id after)))[i]? = some differ := by
      rw [called] at found
      split at found
      · exact found
      · cases found
    obtain ⟨oldMemStore, newMemStore, served, installed, rfl⟩ := List.getElem?_zipWith_eq_some.mp member
    exact ⟨oldMemStore, newMemStore, served, installed, fun _ _ _ _ _ _ => ⟨rfl, rfl⟩⟩
  · have ok : ∀ out ∈ outcomes id after, ∃ newMemStore, out.2 = .ok newMemStore :=
      outcomes_ok fun taken member => loads taken (by simp [member])
    have versions := successes_versions ok dated
    rw [delivered, inProgress_idle idle, List.append_nil] at versions
    have events : processed (before ++ load :: window ++ insertion :: after) =
        processed before ++ processed after := by
      obtain ⟨answers, loading, -⟩ := creation.loaded
      simp [processed_append, processed_cons, loading, label, creation.quiet, Action.processes]
    rw [chronicle.current, lastVersion, events, ← versions, served, List.getLast?_append,
      List.getLast?_map]
    cases successes (outcomes id after) |>.getLast? with
    | none => exact creation.version_eq
    | some newMemStore => rfl

theorem update_history_sample : ∃ steps s handle,
    Run (Step sampleCrates) (State.start sampleVersion) steps s ∧
    s.center.handles[0]? = some handle ∧ handle.called.length = 1 ∧
    ∃ t before load window insertion after created,
      steps = before ++ load :: window ++ insertion :: after ∧
      Creation sampleVersion t ['/'] before load window created ∧
      handle.called = differs created (successes (outcomes 0 after)) := by
  obtain ⟨steps, run⟩ := sampleUpdated_reached
  obtain ⟨t, before, load, window, insertion, after, created, whole, creation, -, -, -, -, called, -, -⟩ :=
    update_history sampleCrates sampleVersion steps _ run ['/'] 0 _ rfl rfl rfl
  exact ⟨steps, _, _, run, rfl, rfl, t, before, load, window, insertion, after, created, whole, creation,
    called⟩

end Eafcc.CfgCenter
