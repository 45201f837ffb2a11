import Eafcc.CfgCenter.GitWatcher
import Eafcc.CfgCenter.Rollout
import Eafcc.CfgCenter.Service
import Eafcc.CfgCenter.StartUp

namespace Eafcc.CfgCenter

open Eafcc.RuleEngine Eafcc.Model Eafcc.Storage Eafcc.Ffi Transition

/-! # Clients catch up with what was published

Once a backend has nothing left to deliver, the handles that the center gives out serve
what the backend names: the file `head`, or the tip of the local branch.
-/

variable {Pri : Type} {crates : Crates Pri} {center : CFGCenterInner Pri} {answers : Answers crates}
  {e : StorageChangeEvent} {order : List (Str × Nat)} {good : Str → MemStorage Pri → Prop}

/-- What the calls load for a namespace is good. -/
def Answers.Load (good : Str → MemStorage Pri → Prop) (answers : Answers crates) : Prop :=
  ∀ ns version store, answers.memStorageNew ns version = .ok store → good ns store

/-- All namespaces that the map holds can be loaded for an event. -/
def CFGCenterInner.LoadsAll (center : CFGCenterInner Pri) (answers : Answers crates)
    (e : StorageChangeEvent) : Prop :=
  ∀ ns id, center.namespaces.lookup ns = some id →
    ∃ memStore, answers.memStorageNew ns e.newVersion = .ok memStore

/-- The handles that the center gives out have good snapshots of its version, at the level
that every event reaches. -/
def CFGCenterInner.Abreast (good : Str → MemStorage Pri → Prop) (center : CFGCenterInner Pri) : Prop :=
  ∀ ns handle, center.serving ns = some handle → handle.notifyLevel = .notifyWithoutChangedKeysByGlobal →
    handle.currentMemstore.version = center.currentVersion ∧ good ns handle.currentMemstore

theorem CFGCenterInner.Abreast.create (abreast : center.Abreast good) (loads : answers.Load good) (ns : Str)
    (level : UpdateNotifyLevel) (callback : Bool) :
    (center.createNamespaceScopedCfgCenter answers ns level callback).1.Abreast good := by
  intro other handle serving global
  rw [create_currentVersion]
  by_cases same : other = ns
  · subst same
    cases valid : CFGCenterInner.validNamespace other with
    | false =>
        rw [create_error fun accepted => absurd accepted (by simp [valid])] at serving
        exact abreast other handle serving global
    | true =>
        cases loaded : answers.memStorageNew other center.currentVersion with
        | error reason =>
            rw [create_error fun _ => ⟨reason, loaded⟩] at serving
            exact abreast other handle serving global
        | ok memStore =>
            rw [create_serving_self valid loaded] at serving
            cases serving
            exact ⟨answers.version_eq loaded, loads other _ memStore loaded⟩
  · rw [create_serving same] at serving
    exact abreast other handle serving global

/-- An event that can be loaded for every namespace brings all handles abreast again. -/
theorem CFGCenterInner.abreast_event (center : CFGCenterInner Pri) (loads : answers.Load good)
    (all : center.LoadsAll answers e) (iteration : center.Iteration order) :
    (center.updateCallback answers order e).Abreast good := by
  intro ns handle serving global
  rw [updateCallback_serving answers e iteration] at serving
  obtain ⟨before, served, rfl⟩ := Option.map_eq_some_iff.mp serving
  rw [NamespaceScopedCFGCenter.onEvent_notifyLevel] at global
  obtain ⟨id, found, -⟩ := serving_eq_some.mp served
  obtain ⟨memStore, loaded⟩ := all ns id found
  have named := serving_namespaceName served
  rw [onEvent_global global (by rwa [named]),
    NamespaceScopedCFGCenter.updateCallback_currentMemstore _ _ _ (by simp [global])]
  exact ⟨answers.version_eq loaded, loads ns _ memStore loaded⟩

theorem CFGCenterInner.abreast_new (version : VersionItem) :
    (CFGCenterInner.new version : CFGCenterInner Pri).Abreast good := by
  intro ns handle serving
  cases serving

/-- The snapshot holds the files of the version that it says. -/
def OwnFiles (crates : Crates Pri) (tree : VersionItem → Node) (ns : Str) (store : MemStorage Pri) : Prop :=
  Reflects crates tree (fun version => version = store.version) ns store

theorem Answers.From.load {tree : VersionItem → Node} (genuine : answers.From tree) :
    answers.Load (OwnFiles crates tree) := by
  intro ns version store loaded
  exact genuine.reflects loaded (answers.version_eq loaded).symm

/-! ## The file `head` -/

section Head

variable {tree : VersionItem → Node} {s s' : HeadCenter Pri} {action : HeadAction crates}

/-- The calls of a step load from the trees of the versions, and an event is loaded for every
namespace. -/
def HeadLoads (tree : VersionItem → Node) (taken : Taken (HeadCenter Pri) (HeadAction crates)) : Prop :=
  match taken.label with
  | .update e answers => answers.From tree ∧
      ∀ center, taken.before.center = some center → center.LoadsAll answers e
  | .create _ _ _ answers => answers.From tree
  | _ => True

/-- Until the thread of the events has ended, the center is abreast. -/
def HeadCenter.Abreast (good : Str → MemStorage Pri → Prop) (s : HeadCenter Pri) : Prop :=
  ∀ center, s.center = some center → s.handler = .ended ∨ center.Abreast good

theorem HeadStep.abreast (step : HeadStep crates s action s') (abreast : s.Abreast (OwnFiles crates tree))
    (loads : HeadLoads tree ⟨s, action, s'⟩) : s'.Abreast (OwnFiles crates tree) := by
  intro center stored
  cases step with
  | readVersion started read =>
      cases stored
      exact .inr (CFGCenterInner.abreast_new _)
  | receive constructed waiting queued rereads read =>
      rcases abreast center stored with ended | holds
      · rw [waiting] at ended
        cases ended
      · exact .inr holds
  | update calling before iteration =>
      cases stored
      exact .inr (CFGCenterInner.abreast_event _ loads.1.load (loads.2 _ before) iteration)
  | updatePanics calling before iteration => exact .inl rfl
  | create constructed before healthy =>
      have genuine := Answers.From.load loads
      cases stored
      rcases abreast _ before with ended | holds
      · exact absurd ended healthy
      · exact .inr (holds.create genuine _ _ _)
  | _ => exact abreast center stored

end Head

/-! ### A version with a link after one without -/

section HeadSample

/-- The sample before and after its link file was written. -/
def sampleTree (version : VersionItem) : Node := if version = sampleVersion then sampleBareRoot else sampleRoot

variable {fuel fuel' : Nat} {index index' : CFGIndex Nat}
  {loads : MemStorage.new sampleCrates sampleVersionsBackend fuel ['/'] sampleVersion =
    some (.ok (storeOf sampleVersion index))}
  {loads' : MemStorage.new sampleCrates sampleVersionsBackend fuel' ['/'] sampleEvent.newVersion =
    some (.ok (storeOf sampleEvent.newVersion index'))}

end HeadSample

/-! ## The tip of the local branch -/

section Git

variable {s s' : GitCenter Pri} {action : GitAction crates}

def GitLoads (taken : Taken (GitCenter Pri) (GitAction crates)) : Prop :=
  ∀ e answers, taken.label = .update e answers → taken.before.center.LoadsAll answers e

theorem GitStep.abreast (step : GitStep crates s action s')
    (abreast : s.watcher = .poisoned ∨ s.center.Abreast fun _ _ => True) (loads : GitLoads ⟨s, action, s'⟩) :
    s'.watcher = .poisoned ∨ s'.center.Abreast fun _ _ => True := by
  have any : ∀ answers : Answers crates, answers.Load fun _ _ => True := fun _ _ _ _ _ => trivial
  cases step with
  | poll synced => exact .inr (abreast.resolve_left (by simp))
  | update iteration => exact .inr (CFGCenterInner.abreast_event _ (any _) (loads _ _ rfl) iteration)
  | updatePanics iteration => exact .inl rfl
  | store => exact .inr (abreast.resolve_left (by simp))
  | create healthy => exact .inr ((abreast.resolve_left healthy).create (any _) _ _ _)

/-- Between polls of the watcher each handle of the map, at the level that every event reaches,
serves the commit at the tip of the local branch, where all loads succeed. -/
theorem git_handles_catch_up (openBare clone : Except Git2Error Repository) (polled : PollAnswers)
    (branchName : Str) (backend : GitBackendInner) (start state : GitCenter Pri) (steps : GitSteps crates)
    (created : GitBackendInner.new openBare clone polled branchName = .ok backend)
    (started : GitCenter.new backend = .ok start) (run : Run (GitStep crates) start steps state)
    (loads : ∀ taken ∈ steps, GitLoads taken) (between : state.watcher.inPoll = false) (ns : Str)
    (handle : NamespaceScopedCFGCenter Pri) (serving : state.center.serving ns = some handle)
    (global : handle.notifyLevel = .notifyWithoutChangedKeysByGlobal) :
    state.backend.tip = some handle.currentMemstore.version.id := by
  have first : start.watcher = .poisoned ∨ start.center.Abreast fun _ _ => True := by
    unfold GitCenter.new at started
    split at started
    · cases started
    · cases started
      exact .inr (CFGCenterInner.abreast_new _)
  obtain ⟨valid, abreast⟩ := (run.forall_of (P := fun _ => True)
    (fun s : GitCenter Pri => s.Valid branchName ∧ (s.watcher = .poisoned ∨ s.center.Abreast fun _ _ => True))
    loads ⟨GitCenter.new_valid created started, first⟩
    (fun _ _ _ inv step here => ⟨step.valid inv.1, step.abreast inv.2 here⟩) fun _ _ _ _ _ _ => trivial).1
  obtain ⟨tip, same⟩ := valid.rest between
  rcases abreast with poisoned | holds
  · rw [poisoned] at between
    cases between
  · rw [(holds ns handle serving global).1, tip, same]

def sampleFollowing : CFGCenterInner Nat :=
  ((CFGCenterInner.new sampleFollower.curVersion).createNamespaceScopedCfgCenter sampleAnswers ['/']
    .notifyWithoutChangedKeysByGlobal true).1

theorem sampleFollowing_loadsAll (e : StorageChangeEvent) : sampleFollowing.LoadsAll sampleAnswers e := by
  intro ns id found
  by_cases same : ns = ['/']
  · exact ⟨{ version := e.newVersion, indices := .empty }, by rw [same]; rfl⟩
  · have absent : sampleFollowing.namespaces.lookup ns = none :=
      (Finmap.lookup_insert_of_ne _ same).trans (Finmap.lookup_empty ns)
    rw [absent] at found
    cases found

/-- A namespace is created, and a new commit is polled. -/
theorem git_handles_catch_up_sample : ∃ steps state handle, Run (GitStep sampleCrates) sampleWatched steps state ∧
    state.center.serving ['/'] = some handle ∧ handle.currentMemstore.version.id = secondCommit.id ∧
    state.backend.tip = some handle.currentMemstore.version.id := by
  have creates : GitStep sampleCrates sampleWatched
      (.create ['/'] .notifyWithoutChangedKeysByGlobal true sampleAnswers)
      ⟨sampleFollower, sampleFollowing, .sleeping⟩ := .create (by simp)
  have synced := sampleListing_synced sampleFollower secondCommit commits_differ
  have polls : GitStep sampleCrates ⟨sampleFollower, sampleFollowing, .sleeping⟩ _ _ := .poll synced
  have order : sampleFollowing.Iteration [(['/'], 0)] := iteration_single rfl
  have polled := (Run.nil.snoc creates).snoc polls
  have updated := polled.snoc (show GitStep sampleCrates _ (.update _ sampleAnswers) _ from .update order)
  have stored := updated.snoc .store
  have serving := updateCallback_serving sampleAnswers
    ⟨{ name := secondCommit.message.getD [], id := secondCommit.id }⟩ order ['/']
  have started : GitCenter.new sampleFollower = .ok sampleWatched := by
    simp only [GitCenter.new, sampleFollower_current]
    rfl
  refine ⟨_, _, _, stored, serving, rfl, ?_⟩
  refine git_handles_catch_up (.ok sampleRepository) (.error []) (sampleListing firstCommit firstCommit) ['m']
    sampleFollower sampleWatched _ _ sampleFollower_new started stored ?_ rfl ['/'] _ serving rfl
  intro taken member e answers updated
  simp only [List.mem_append, List.mem_singleton, List.not_mem_nil, false_or, or_assoc] at member
  rcases member with rfl | rfl | rfl | rfl
  · cases updated
  · cases updated
  · cases updated
    exact sampleFollowing_loadsAll _
  · cases updated

end Git

end Eafcc.CfgCenter
