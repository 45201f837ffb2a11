import Eafcc.CfgCenter.Loading
import Eafcc.CfgCenter.Threads

namespace Eafcc.CfgCenter

open Eafcc.Model Eafcc.Storage Transition

/-! # Calls that run alone

A thread that runs a call while the mutexes are free and no other thread takes a
step does to the center what the function of the call does.
-/

variable {Pri : Type} {crates : Crates Pri} {center center' : CFGCenterInner Pri}
  {thread next : Thread Pri} {action : Action crates} {s : State Pri} {t : Nat}

/-- The holders of the two mutexes. -/
def holders (namespaces currentVersion : Option Nat) : Mutex → Option Nat
  | .namespaces => namespaces
  | .currentVersion => currentVersion

/-- A state that differs from another in what a thread does there. -/
def State.alone (s : State Pri) (t : Nat) (thread : Thread Pri) (holder : Mutex → Option Nat)
    (center : CFGCenterInner Pri) : State Pri :=
  { center, holder, threads := Function.update s.threads t thread }

section Relock

variable (ns version : Option Nat)

theorem acquire_namespaces : (Action.acquire .namespaces : Action crates).relock t (holders ns version) =
    holders (some t) version := by
  funext mutex
  cases mutex <;> rfl

theorem acquire_currentVersion :
    (Action.acquire .currentVersion : Action crates).relock t (holders ns version) =
      holders ns (some t) := by
  funext mutex
  cases mutex <;> rfl

theorem release_namespaces : (Action.release .namespaces : Action crates).relock t (holders ns version) =
    holders none version := by
  funext mutex
  cases mutex <;> rfl

theorem release_currentVersion :
    (Action.release .currentVersion : Action crates).relock t (holders ns version) =
      holders ns none := by
  funext mutex
  cases mutex <;> rfl

end Relock

theorem Moves.alone {holder : Mutex → Option Nat} (s : State Pri) (t : Nat)
    (moves : Moves crates center thread action next center') (permitted : action.Permitted holder) :
    Step crates (s.alone t thread holder center) (t, action)
      (s.alone t next (action.relock t holder) center') := by
  have moves' : Moves crates center ((s.alone t thread holder center).threads t) action next center' := by
    simpa [State.alone] using moves
  have step := Step.run (s := s.alone t thread holder center) (t := t) moves' permitted
  simpa [State.alone] using step

/-- The steps of a thread from one point to another, the other threads standing still. -/
def Goes (crates : Crates Pri) (s : State Pri) (t : Nat) (thread : Thread Pri)
    (holder : Mutex → Option Nat) (center : CFGCenterInner Pri) (thread' : Thread Pri)
    (holder' : Mutex → Option Nat) (center' : CFGCenterInner Pri) : Prop :=
  ∃ steps, Run (Step crates) (s.alone t thread holder center) steps (s.alone t thread' holder' center')

variable {holder holder' : Mutex → Option Nat} {thread' : Thread Pri}

theorem Goes.refl : Goes crates s t thread holder center thread holder center := ⟨[], .nil⟩

theorem Goes.step (goes : Goes crates s t thread holder center thread' holder' center')
    {center'' : CFGCenterInner Pri} {holder'' : Mutex → Option Nat}
    (moves : Moves crates center' thread' action next center'') (permitted : action.Permitted holder')
    (relocked : action.relock t holder' = holder'') :
    Goes crates s t thread holder center next holder'' center'' := by
  obtain ⟨steps, run⟩ := goes
  rw [← relocked]
  exact ⟨_, run.snoc (moves.alone s t permitted)⟩

theorem Goes.trans {thread'' : Thread Pri} {holder'' : Mutex → Option Nat}
    {center'' : CFGCenterInner Pri}
    (first : Goes crates s t thread holder center thread' holder' center')
    (second : Goes crates s t thread' holder' center' thread'' holder'' center'') :
    Goes crates s t thread holder center thread'' holder'' center'' := by
  obtain ⟨_, run⟩ := first
  obtain ⟨_, more⟩ := second
  exact ⟨_, run.append more⟩

/-- A create that runs alone. -/
theorem create_goes (s : State Pri) (t : Nat) (answers : Answers crates) (center : CFGCenterInner Pri)
    (ns : Str) (level : UpdateNotifyLevel) (callback : Bool) :
    Goes crates s t .idle (holders none none) center .idle (holders none none)
      (center.createNamespaceScopedCfgCenter answers ns level callback).1 := by
  have start : Goes crates s t .idle (holders none none) center .idle (holders none none) center := .refl
  unfold CFGCenterInner.createNamespaceScopedCfgCenter
  cases valid : CFGCenterInner.validNamespace ns with
  | false =>
      have refused : Moves crates center .idle (.call (.createNamespace ns level callback)) .idle center :=
        .callRefused valid
      exact start.step refused trivial rfl
  | true =>
      have locked := (start.step (.callCreate valid) trivial rfl).step
        (.create : Moves crates center (.create ns level callback) _ _ _) rfl (acquire_currentVersion _ _)
      cases loaded : answers.memStorageNew ns center.currentVersion with
      | error reason =>
          exact (locked.step (.createFail loaded) trivial rfl).step .createReturn trivial
            (release_currentVersion _ _)
      | ok memStore =>
          have inserted := ((locked.step (.createLoad loaded) trivial rfl).step .createLock rfl
            (acquire_namespaces _ _)).step .createInsert trivial rfl
          exact (inserted.step .createUnlock trivial (release_namespaces _ _)).step .createReturn trivial
            (release_currentVersion _ _)

/-! ## Steps that are all of a kind -/

section Allowed

variable {allowed : Action crates → Prop}

/-- The steps of a thread from one point to another, whose actions are all allowed. -/
def GoesBy (allowed : Action crates → Prop) (s : State Pri) (t : Nat) (thread : Thread Pri)
    (holder : Mutex → Option Nat) (center : CFGCenterInner Pri) (thread' : Thread Pri)
    (holder' : Mutex → Option Nat) (center' : CFGCenterInner Pri) : Prop :=
  ∃ steps, Run (Step crates) (s.alone t thread holder center) steps (s.alone t thread' holder' center') ∧
    ∀ taken ∈ steps, allowed taken.label.2

theorem GoesBy.refl : GoesBy allowed s t thread holder center thread holder center :=
  ⟨[], .nil, fun _ member => absurd member List.not_mem_nil⟩

theorem GoesBy.step (goes : GoesBy allowed s t thread holder center thread' holder' center')
    {center'' : CFGCenterInner Pri} {holder'' : Mutex → Option Nat}
    (moves : Moves crates center' thread' action next center'') (permitted : action.Permitted holder')
    (relocked : action.relock t holder' = holder'') (allows : allowed action) :
    GoesBy allowed s t thread holder center next holder'' center'' := by
  obtain ⟨steps, run, all⟩ := goes
  rw [← relocked]
  refine ⟨_, run.snoc (moves.alone s t permitted), ?_⟩
  rw [List.forall_mem_append, List.forall_mem_singleton]
  exact ⟨all, allows⟩

/-- A create that runs alone and loads its namespace. -/
theorem create_goesBy {answers : Answers crates} {ns : Str} {memStore : MemStorage Pri}
    (valid : CFGCenterInner.validNamespace ns = true)
    (loaded : answers.memStorageNew ns center.currentVersion = .ok memStore)
    (calls : ∀ call, allowed (.call call)) (acquires : ∀ mutex, allowed (.acquire mutex))
    (releases : ∀ mutex, allowed (.release mutex)) (inserts : ∀ ns id, allowed (.insert ns id))
    (loads : allowed (.createLoad ns answers)) (level : UpdateNotifyLevel) (callback : Bool) :
    GoesBy allowed s t .idle (holders none none) center .idle (holders none none)
      (center.insert (.new ns memStore level callback)) := by
  have start : GoesBy allowed s t .idle (holders none none) center .idle (holders none none) center := .refl
  have refers : Moves crates center .idle (.call (.createNamespace ns level callback))
    (.create ns level callback) center := .callCreate valid
  have called := start.step refers trivial rfl (calls _)
  have loading := (called.step .create rfl (acquire_currentVersion _ _) (acquires _)).step (.createLoad loaded)
    trivial rfl loads
  have inserted := (loading.step .createLock rfl (acquire_namespaces _ _) (acquires _)).step .createInsert
    trivial rfl (inserts _ _)
  exact (inserted.step .createUnlock trivial (release_namespaces _ _) (releases _)).step .createReturn trivial
    (release_currentVersion _ _) (releases _)

end Allowed

/-! ## An update that runs alone -/

theorem updateNamespace_namespaces (answers : Answers crates) (e : StorageChangeEvent)
    (center : CFGCenterInner Pri) (entry : Str × Nat) :
    (center.updateNamespace answers e entry).namespaces = center.namespaces := by
  unfold CFGCenterInner.updateNamespace
  split
  · rfl
  · split <;> rfl

/-- The loop over the namespaces. -/
theorem updateLoop_goes (s : State Pri) (t : Nat) (answers : Answers crates) (e : StorageChangeEvent)
    (holder : Mutex → Option Nat) (rest : List (Str × Nat)) (center : CFGCenterInner Pri)
    (listed : ∀ entry ∈ rest, center.namespaces.lookup entry.1 = some entry.2) :
    Goes crates s t (.updateLoop e rest) holder center (.updateLoop e []) holder
      (rest.foldl (CFGCenterInner.updateNamespace answers e) center) := by
  induction rest generalizing center with
  | nil => exact .refl
  | cons entry rest ih =>
      obtain ⟨ns, id⟩ := entry
      have later := ih (center.updateNamespace answers e (ns, id)) fun entry member => by
        rw [updateNamespace_namespaces]
        exact listed entry (by simp [member])
      have start : Goes crates s t (.updateLoop e ((ns, id) :: rest)) holder center
        (.updateLoop e ((ns, id) :: rest)) holder center := .refl
      obtain ⟨handle, stored, -⟩ := center.filed ns id (listed (ns, id) (by simp))
      refine Goes.trans ?_ later
      cases loaded : CFGCenterInner.loadChanged answers handle.notifyLevel center.currentVersion
          e.newVersion ns with
      | none =>
          have same : center.updateNamespace answers e (ns, id) = center := by
            simp [CFGCenterInner.updateNamespace, stored, loaded]
          rw [same]
          exact start.step (.updateSkip stored loaded) trivial rfl
      | some result =>
          obtain ⟨newMemStore, changes⟩ := result
          have updated : center.updateNamespace answers e (ns, id) =
              center.install id newMemStore changes := by
            simp [CFGCenterInner.updateNamespace, stored, loaded]
          rw [updated]
          exact (start.step (.updateLoad stored loaded) trivial rfl).step .updateInstall trivial rfl

theorem update_goes (s : State Pri) (t : Nat) (answers : Answers crates) (center : CFGCenterInner Pri)
    (order : List (Str × Nat)) (iteration : center.Iteration order) (e : StorageChangeEvent) :
    Goes crates s t .idle (holders none none) center .idle (holders none none)
      (center.updateCallback answers order e) := by
  have start : Goes crates s t .idle (holders none none) center .idle (holders none none) center := .refl
  have entered := ((start.step (.callUpdate (e := e)) trivial rfl).step .update rfl (acquire_namespaces _ _)).step
    (.updateLock iteration) rfl (acquire_currentVersion _ _)
  have looped := entered.trans (updateLoop_goes s t answers e _ order center
    fun entry member => (iteration.2 entry.1 entry.2).mp member)
  exact ((looped.step .updateEnd trivial rfl).step .updateUnlock trivial
    (release_currentVersion _ _)).step .updateReturn trivial (release_namespaces _ _)

/-! ## A create and an update in turn -/

theorem State.start_alone (version : VersionItem) (t : Nat) :
    (State.start version : State Pri).alone t .idle (holders none none) (.new version) =
      State.start version := by
  have free : holders none none = fun _ => none := by
    funext mutex
    cases mutex <;> rfl
  simp [State.alone, State.start, free]

theorem iteration_single {center : CFGCenterInner Pri} {ns : Str} {id : Nat}
    (only : center.namespaces = Finmap.insert ns id ∅) : center.Iteration [(ns, id)] := by
  refine ⟨by simp, fun other found => ?_⟩
  rw [only, lookup_insert_eq]
  by_cases same : other = ns
  · simp [same, eq_comm]
  · simp [same]

def sampleAnswers : Answers sampleCrates :=
  .withoutFiles sampleCrates (fun _ _ _ => .ok []) fun _ _ => false

def sampleCreated : CFGCenterInner Nat :=
  ((CFGCenterInner.new sampleVersion).createNamespaceScopedCfgCenter sampleAnswers ['/']
    .notifyWithoutChangedKeysByGlobal true).1

theorem sampleCreated_iteration : sampleCreated.Iteration [(['/'], 0)] := iteration_single rfl

def sampleEvent : StorageChangeEvent := ⟨{ name := ['w'], id := toUtf8 ['w'] }⟩

def sampleUpdated : CFGCenterInner Nat :=
  sampleCreated.updateCallback sampleAnswers [(['/'], 0)] sampleEvent

theorem sampleUpdated_reached : ∃ steps,
    Run (Step sampleCrates) (State.start sampleVersion) steps
      ((State.start sampleVersion).alone 0 .idle (holders none none) sampleUpdated) := by
  have created := create_goes (State.start sampleVersion) 0 sampleAnswers (.new sampleVersion) ['/']
    .notifyWithoutChangedKeysByGlobal true
  obtain ⟨steps, run⟩ := created.trans
    (update_goes (State.start sampleVersion) 0 sampleAnswers sampleCreated _ sampleCreated_iteration _)
  rw [State.start_alone] at run
  exact ⟨steps, run⟩

end Eafcc.CfgCenter
