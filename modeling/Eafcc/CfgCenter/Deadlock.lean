import Eafcc.CfgCenter.Sequential

namespace Eafcc.CfgCenter

open Eafcc.Model Eafcc.Storage Transition

/-! # When threads block each other -/

variable {Pri : Type} {crates : Crates Pri} {center center' : CFGCenterInner Pri}
  {thread next : Thread Pri} {action : Action crates} {s s' : State Pri} {t : Nat}

/-- The mutex that a thread has to acquire next. -/
def Thread.waits : Thread Pri → Option Mutex
  | .get _ => some .namespaces
  | .create .. => some .currentVersion
  | .createLock _ => some .namespaces
  | .update _ => some .namespaces
  | .updateLock _ => some .currentVersion
  | _ => none

/-- Some calls are not finished, and no thread that runs one can take a step. -/
def Deadlocked (crates : Crates Pri) (s : State Pri) : Prop :=
  (∃ t, s.threads t ≠ .idle) ∧
    ∀ t, s.threads t ≠ .idle → ∀ (action : Action crates) s', ¬ Step crates s (t, action) s'

/-! ## Which threads can take a step -/

theorem Moves.acquires {mutex : Mutex} (moves : Moves crates center thread action next center')
    (waits : thread.waits = some mutex) : action = .acquire mutex := by
  cases moves <;> simp_all [Thread.waits]

theorem CFGCenterInner.iteration_exists (center : CFGCenterInner Pri) :
    ∃ order, center.Iteration order := by
  obtain ⟨entries, same⟩ := Quotient.exists_rep center.namespaces.entries
  have listed : (entries : Multiset (Sigma fun _ : Str => Nat)) = center.namespaces.entries := same
  refine ⟨entries.map fun entry => (entry.1, entry.2), ?_, fun ns id => ?_⟩
  · have distinct := center.namespaces.nodupKeys
    rw [← listed] at distinct
    rw [List.map_map]
    exact distinct
  · rw [Finmap.lookup_eq_some_iff, ← listed]
    simp

/-- Some move is open to a thread that is in a call, at the least the
acquisition of the mutex it waits for. -/
theorem moves_exists (busy : thread ≠ .idle) (work : thread.Working crates center) :
    ∃ (action : Action crates) (next : Thread Pri) (center' : CFGCenterInner Pri),
      Moves crates center thread action next center' ∧
      ∀ mutex, action = .acquire mutex → thread.waits = some mutex := by
  let answers : Answers crates := .withoutFiles crates (fun _ _ _ => .ok []) fun _ _ => false
  cases thread with
  | idle => contradiction
  | get ns => exact ⟨_, _, _, .getLock, by simp [Thread.waits]⟩
  | getReturn result => exact ⟨_, _, _, .getReturn, by simp⟩
  | create ns level callback => exact ⟨_, _, _, .create, by simp [Thread.waits]⟩
  | createLoad ns level callback =>
      cases loaded : answers.memStorageNew ns center.currentVersion with
      | error reason => exact ⟨_, _, _, .createFail loaded, by simp⟩
      | ok memStore => exact ⟨_, _, _, .createLoad loaded, by simp⟩
  | createLock handle => exact ⟨_, _, _, .createLock, by simp [Thread.waits]⟩
  | createInsert handle => exact ⟨_, _, _, .createInsert, by simp⟩
  | createUnlock => exact ⟨_, _, _, .createUnlock, by simp⟩
  | createReturn => exact ⟨_, _, _, .createReturn, by simp⟩
  | update e => exact ⟨_, _, _, .update, by simp [Thread.waits]⟩
  | updateLock e =>
      obtain ⟨order, iteration⟩ := center.iteration_exists
      exact ⟨_, _, _, .updateLock iteration, by simp [Thread.waits]⟩
  | updateLoop e rest =>
      match rest with
      | [] => exact ⟨_, _, _, .updateEnd, by simp⟩
      | (ns, id) :: rest =>
          obtain ⟨handle, stored, -⟩ := center.filed ns id (work.2 (ns, id) (by simp))
          cases loaded : CFGCenterInner.loadChanged answers handle.notifyLevel center.currentVersion
              e.newVersion ns with
          | none => exact ⟨_, _, _, .updateSkip stored loaded, by simp⟩
          | some result => exact ⟨_, _, _, .updateLoad stored loaded, by simp⟩
  | updateInstall e entry newMemStore changes rest => exact ⟨_, _, _, .updateInstall, by simp⟩
  | updateUnlock => exact ⟨_, _, _, .updateUnlock, by simp⟩
  | updateReturn => exact ⟨_, _, _, .updateReturn, by simp⟩

/-- A thread in a call can take a step unless it waits for a mutex that is held. -/
theorem step_exists_iff (valid : s.Valid crates) (busy : s.threads t ≠ .idle) :
    (∃ (action : Action crates) (s' : State Pri), Step crates s (t, action) s') ↔
      ∀ mutex, (s.threads t).waits = some mutex → s.holder mutex = none := by
  constructor
  · rintro ⟨action, s', step⟩ mutex waits
    cases step with
    | run moves permitted =>
        rw [moves.acquires waits] at permitted
        exact permitted
  · intro free
    obtain ⟨action, next, center', moves, acquires⟩ := moves_exists busy (valid.working t)
    refine ⟨action, _, .run moves ?_⟩
    cases action with
    | acquire mutex => exact free mutex (acquires mutex rfl)
    | _ => trivial

/-! ## The shape of a deadlock -/

/-- A create that holds the version waits for the map of an update that waits
for the version. -/
def Crossed (s : State Pri) : Prop :=
  ∃ c u handle e, s.threads c = .createLock handle ∧ s.threads u = .updateLock e

theorem holder_busy (locked : s.Locked) {mutex : Mutex} (held : s.holder mutex = some t) :
    s.threads t ≠ .idle := by
  intro idle
  have holds := (locked mutex t).mp held
  simp [idle, Thread.holds] at holds

theorem holds_waits {held wanted : Mutex} (holds : thread.holds held = true)
    (waits : thread.waits = some wanted) :
    (∃ handle, thread = .createLock handle ∧ held = .currentVersion ∧ wanted = .namespaces) ∨
    ∃ e, thread = .updateLock e ∧ held = .namespaces ∧ wanted = .currentVersion := by
  cases thread <;> cases held <;> simp_all [Thread.holds, Thread.waits]

/-- Outside a call and its waits a thread stands inside a guard. -/
theorem holds_of_not_waits (busy : thread ≠ .idle) (free : thread.waits = none) :
    ∃ mutex, thread.holds mutex = true := by
  cases thread with
  | createLoad | createReturn => exact ⟨.currentVersion, rfl⟩
  | getReturn | createInsert | createUnlock | updateLoop | updateInstall | updateUnlock
  | updateReturn => exact ⟨.namespaces, rfl⟩
  | _ => simp_all [Thread.waits]

theorem deadlocked_iff_crossed (valid : s.Valid crates) : Deadlocked crates s ↔ Crossed s := by
  have locked := valid.locked
  constructor
  · rintro ⟨⟨t, busy⟩, stuck⟩
    have blocked : ∀ t, s.threads t ≠ .idle → ∃ wanted u, (s.threads t).waits = some wanted ∧
        s.holder wanted = some u := by
      intro t busy
      by_contra open_
      have steps : ∃ (action : Action crates) (s' : State Pri), Step crates s (t, action) s' := by
        rw [step_exists_iff valid busy]
        intro mutex waits
        by_contra held
        obtain ⟨u, holder⟩ := Option.ne_none_iff_exists'.mp held
        exact open_ ⟨mutex, u, waits, holder⟩
      obtain ⟨action, s', step⟩ := steps
      exact stuck t busy action s' step
    -- The holder of a mutex waits as well, for the other one, whose holder waits for the first.
    obtain ⟨wanted, u, -, holder⟩ := blocked t busy
    obtain ⟨wanted', w, waits, holder'⟩ := blocked u (holder_busy locked holder)
    obtain ⟨wanted'', _, waits', -⟩ := blocked w (holder_busy locked holder')
    rcases holds_waits ((locked _ _).mp holder) waits with ⟨handle, first, -, rfl⟩ | ⟨e, first, -, rfl⟩
    · rcases holds_waits ((locked _ _).mp holder') waits' with ⟨_, _, impossible, _⟩ | ⟨e, second, -⟩
      · contradiction
      · exact ⟨u, w, handle, e, first, second⟩
    · rcases holds_waits ((locked _ _).mp holder') waits' with ⟨handle, second, -⟩ | ⟨_, _, impossible, _⟩
      · exact ⟨w, u, handle, e, second, first⟩
      · contradiction
  · rintro ⟨c, u, handle, e, first, second⟩
    have byCreate : s.holder .currentVersion = some c := (locked _ _).mpr (by simp [first, Thread.holds])
    have byUpdate : s.holder .namespaces = some u := (locked _ _).mpr (by simp [second, Thread.holds])
    refine ⟨⟨c, by simp [first]⟩, fun t busy action s' step => ?_⟩
    have free := (step_exists_iff valid busy).mp ⟨action, s', step⟩
    have waitless : (s.threads t).waits = none := by
      by_contra waiting
      obtain ⟨mutex, waits⟩ := Option.ne_none_iff_exists'.mp waiting
      have released := free mutex waits
      cases mutex <;> simp [byCreate, byUpdate] at released
    obtain ⟨mutex, holds⟩ := holds_of_not_waits busy waitless
    have held := (locked mutex t).mpr holds
    cases mutex with
    | namespaces =>
        obtain rfl : u = t := by simpa [byUpdate] using held
        simp [second, Thread.waits] at waitless
    | currentVersion =>
        obtain rfl : c = t := by simpa [byCreate] using held
        simp [first, Thread.waits] at waitless

/-! ## The steps that lead into a deadlock -/

/-- An update takes the map while a create that has loaded its snapshot waits for
it, or the load of a create succeeds while an update waits for the version. -/
def Crosses (taken : Taken (State Pri) (Nat × Action crates)) : Prop :=
  match taken.label with
  | (t, .acquire .namespaces) =>
      (∃ e, taken.before.threads t = .update e) ∧
        ∃ c handle, taken.before.threads c = .createLock handle
  | (_, .createLoad ns answers) =>
      (∃ memStore, answers.memStorageNew ns taken.before.center.currentVersion = .ok memStore) ∧
        ∃ u e, taken.before.threads u = .updateLock e
  | _ => False

theorem crossed_step {label : Nat × Action crates} (apart : ¬ Crossed s)
    (step : Step crates s label s') : Crossed s' ↔ Crosses ⟨s, label, s'⟩ := by
  cases step with
  | @run t action next center moves permitted =>
      constructor
      · rintro ⟨c, u, handle, e, creates, updates⟩
        by_cases byCreate : c = t
        · subst byCreate
          obtain rfl : next = .createLock handle := by simpa using creates
          by_cases same : u = c
          · simp [same] at updates
          · obtain ⟨ns, level, callback, memStore, answers, rfl, loaded, -⟩ := moves.enters_createLock
            exact ⟨⟨memStore, loaded⟩, u, e, by simpa [same] using updates⟩
        · have creating : s.threads c = .createLock handle := by simpa [byCreate] using creates
          by_cases byUpdate : u = t
          · subst byUpdate
            obtain rfl : next = .updateLock e := by simpa using updates
            obtain ⟨waiting, rfl⟩ := moves.enters_updateLock
            exact ⟨⟨e, waiting⟩, c, handle, creating⟩
          · exact absurd ⟨c, u, handle, e, creating, by simpa [byUpdate] using updates⟩ apart
      · intro crosses
        generalize here : s.threads t = thread at moves
        cases moves with
        | @update e =>
            obtain ⟨-, c, handle, creating⟩ := crosses
            have other : c ≠ t := by
              rintro rfl
              cases here.symm.trans creating
            exact ⟨c, t, handle, e, by simpa [other] using creating, by simp⟩
        | @createLoad ns level callback answers memStore loaded =>
            obtain ⟨-, u, e, updating⟩ := crosses
            have other : u ≠ t := by
              rintro rfl
              cases here.symm.trans updating
            exact ⟨t, u, .new ns memStore level callback, e, by simp, by simpa [other] using updating⟩
        | createFail failed =>
            obtain ⟨⟨memStore, loaded⟩, -⟩ := crosses
            simp [failed] at loaded
        | getLock | createLock =>
            obtain ⟨⟨e, updating⟩, -⟩ := crosses
            simp [here] at updating
        | _ => exact crosses.elim

/-- A run of any number of threads stays clear of deadlocks exactly if none of
its steps crosses a create and an update. -/
theorem not_deadlocked_iff (crates : Crates Pri) (version : VersionItem)
    (steps : List (Taken (State Pri) (Nat × Action crates))) (s : State Pri)
    (run : Run (Step crates) (State.start version) steps s) :
    (∀ taken ∈ steps, ¬ Deadlocked crates taken.after) ↔ ∀ taken ∈ steps, ¬ Crosses taken := by
  have start : ¬ Crossed (State.start version : State Pri) := by
    rintro ⟨c, u, handle, e, creates, -⟩
    simp [State.start] at creates
  have keeps : ∀ state label next, state.Valid crates → Step crates state label next →
      next.Valid crates := fun _ _ _ valid step => step.valid valid
  have apart := (run.forall_good_iff (Q := fun taken => ¬ Crosses taken) (State.start_valid crates version) keeps start
    fun _ _ _ _ apart step => (crossed_step apart step).not).1
  rw [← apart]
  refine forall₂_congr fun taken member => ?_
  rw [deadlocked_iff_crossed (run.invariant_after (State.start_valid crates version) keeps taken member)]

/-! ### One create and one update -/

def sampleHandle : NamespaceScopedCFGCenter Nat :=
  .new ['/'] { version := sampleVersion, indices := .empty } .noNotify false

/-- A create up to the point where it waits for the map. -/
theorem sample_creates : ∃ steps,
    Run (Step sampleCrates) (State.start sampleVersion) steps
      { center := .new sampleVersion
        holder := Function.update (fun _ => none) .currentVersion (some 0)
        threads := Function.update (fun _ => .idle) 0 (.createLock sampleHandle) } := by
  have start : Run (Step sampleCrates) (State.start sampleVersion) [] (State.start sampleVersion) := .nil
  have called : Moves sampleCrates (.new sampleVersion) .idle
      (.call (.createNamespace ['/'] .noNotify false)) (.create ['/'] .noNotify false)
      (.new sampleVersion) := .callCreate rfl
  have loaded : Moves sampleCrates (.new sampleVersion) (.createLoad ['/'] .noNotify false)
      (.createLoad ['/'] sampleAnswers)
      (.createLock sampleHandle) (.new sampleVersion) := .createLoad rfl
  have run := ((start.snoc (.run (t := 0) called trivial)).snoc (.run (t := 0) .create rfl)).snoc
    (.run (t := 0) loaded trivial)
  simp only [Action.relock, State.start, Function.update_idem] at run
  exact ⟨_, run⟩

/-- An update comes up to the point where it waits for the version. -/
theorem deadlock_reached : ∃ steps s,
    Run (Step sampleCrates) (State.start sampleVersion) steps s ∧ Deadlocked sampleCrates s := by
  obtain ⟨steps, run⟩ := sample_creates
  have waits := (run.snoc (.run (t := 1) (.callUpdate (e := ⟨sampleVersion⟩)) trivial)).snoc
    (.run (t := 1) .update rfl)
  refine ⟨_, _, waits, ?_⟩
  have keeps : ∀ state label next, state.Valid sampleCrates → Step sampleCrates state label next →
      next.Valid sampleCrates := fun _ _ _ valid step => step.valid valid
  rw [deadlocked_iff_crossed (waits.invariant (State.start_valid sampleCrates sampleVersion) keeps)]
  exact ⟨0, 1, _, _, rfl, rfl⟩

/-- A create and an update both wait for a lookup to drop the map.  The create
goes first, and the update takes both mutexes after it. -/
theorem sample_waits : ∃ steps s,
    Run (Step sampleCrates) (State.start sampleVersion) steps s ∧ s.holder .namespaces = some 1 ∧
    s.holder .currentVersion = some 1 ∧ s.center.handles.length = 1 ∧ ∀ taken ∈ steps, ¬ Crosses taken := by
  have start : Run (Step sampleCrates) (State.start sampleVersion) [] (State.start sampleVersion) := .nil
  have asking : Moves sampleCrates (.new sampleVersion) .idle (.call (.getNamespace ['/'])) (.get ['/'])
      (.new sampleVersion) := .callGet
  have looks := (start.snoc (.run (t := 2) asking trivial)).snoc (.run (t := 2) .getLock rfl)
  have called : Moves sampleCrates (.new sampleVersion) .idle
      (.call (.createNamespace ['/'] .noNotify false)) (.create ['/'] .noNotify false)
      (.new sampleVersion) := .callCreate rfl
  have creates := (looks.snoc (.run (t := 0) called trivial)).snoc (.run (t := 0) .create rfl)
  have loaded : sampleAnswers.memStorageNew ['/'] sampleVersion =
    .ok { version := sampleVersion, indices := .empty } := rfl
  have loads := creates.snoc (.run (t := 0) (.createLoad loaded) trivial)
  have waits := loads.snoc (.run (t := 1) (.callUpdate (e := ⟨sampleVersion⟩)) trivial)
  have looked := waits.snoc (.run (t := 2) .getReturn trivial)
  have filed := (looked.snoc (.run (t := 0) .createLock rfl)).snoc (.run (t := 0) .createInsert trivial)
  have created := (filed.snoc (.run (t := 0) .createUnlock trivial)).snoc (.run (t := 0) .createReturn trivial)
  have order : ((CFGCenterInner.new sampleVersion).insert sampleHandle).Iteration [(['/'], 0)] :=
    iteration_single rfl
  have updates := (created.snoc (.run (t := 1) .update rfl)).snoc (.run (t := 1) (.updateLock order) rfl)
  refine ⟨_, _, updates, rfl, rfl, rfl, ?_⟩
  simp only [Crosses, List.nil_append, List.forall_mem_append, List.forall_mem_singleton, not_false_eq_true,
    true_and, and_true]
  refine ⟨⟨⟨?_, ?_⟩, ?_⟩, ?_⟩
  · rintro ⟨⟨e, updating⟩, -⟩
    cases updating
  · rintro ⟨-, u, e, updating⟩
    simp only [State.start, Function.update_apply] at updating
    split_ifs at updating
  · rintro ⟨⟨e, updating⟩, -⟩
    cases updating
  -- the create has returned when the update takes the map
  · rintro ⟨-, c, handle, creating⟩
    simp only [State.start, Function.update_apply] at creating
    split_ifs at creating

theorem not_deadlocked_iff_sample : ∃ steps s,
    Run (Step sampleCrates) (State.start sampleVersion) steps s ∧ s.holder .namespaces = some 1 ∧
    s.holder .currentVersion = some 1 ∧ s.center.handles.length = 1 ∧
    ∀ taken ∈ steps, ¬ Deadlocked sampleCrates taken.after := by
  obtain ⟨steps, s, run, map, version, filed, apart⟩ := sample_waits
  exact ⟨steps, s, run, map, version, filed, (not_deadlocked_iff sampleCrates sampleVersion steps s run).mpr apart⟩

end Eafcc.CfgCenter
