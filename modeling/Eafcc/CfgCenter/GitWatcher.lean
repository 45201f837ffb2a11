import Eafcc.CfgCenter.Events
import Eafcc.Storage.GitSync

namespace Eafcc.CfgCenter

open Eafcc.Model Eafcc.Storage Transition

/-! # The watcher of the git backend -/

variable {Pri : Type} {crates : Crates Pri}

/-- Where the thread of the watcher stands. It ends with a panic of its poll, or of the
callback, which leaves the poll unfinished and the mutexes of the center poisoned. -/
inductive Watcher where
  | sleeping
  | calling (newVersion : VersionItem)
  | storing (newVersion : VersionItem)
  | ended
  | poisoned

def Watcher.inPoll : Watcher → Bool
  | .sleeping | .ended => false
  | .calling _ | .storing _ | .poisoned => true

structure GitCenter (Pri : Type) where
  backend : GitBackendInner
  center : CFGCenterInner Pri
  watcher : Watcher

/-- `CFGCenter::new` over a new backend. -/
def GitCenter.new (backend : GitBackendInner) : Except CCLibError (GitCenter Pri) :=
  match backend.getCurrentVersion with
  | .error _ => .error (.namespaceError "can not get newest config version".toList)
  | .ok version => .ok { backend, center := .new version, watcher := .sleeping }

inductive GitAction (crates : Crates Pri) where
  | poll (answers : PollAnswers)
  | update (e : StorageChangeEvent) (answers : Answers crates)
  | updatePanics (e : StorageChangeEvent)
  | store (newVersion : VersionItem)
  | create (ns : Str) (notifyLevel : UpdateNotifyLevel) (callback : Bool) (answers : Answers crates)

/-- Where the watcher stands after a poll has synced the local branch. -/
def afterSync : Rust StorageBackendError (Option VersionItem) → Watcher
  | .ok (some newVersion) => .calling newVersion
  | .ok none => .sleeping
  | .error (.error _) => .sleeping
  | .error .panic => .ended

/-- The steps of the watcher, and the creates of other threads between them. -/
inductive GitStep (crates : Crates Pri) : GitCenter Pri → GitAction crates → GitCenter Pri → Prop
  | poll {backend synced : GitBackendInner} {center : CFGCenterInner Pri} {answers : PollAnswers}
      {result : Rust StorageBackendError (Option VersionItem)} :
      gitSyncLocalBranch answers backend backend.targetBranchName = (synced, result) →
      GitStep crates ⟨backend, center, .sleeping⟩ (.poll answers) ⟨synced, center, afterSync result⟩
  | update {backend : GitBackendInner} {center : CFGCenterInner Pri} {newVersion : VersionItem}
      {answers : Answers crates} {order : List (Str × Nat)} :
      center.Iteration order →
      GitStep crates ⟨backend, center, .calling newVersion⟩ (.update ⟨newVersion⟩ answers)
        ⟨backend, center.updateCallback answers order ⟨newVersion⟩, .storing newVersion⟩
  | updatePanics {backend : GitBackendInner} {center : CFGCenterInner Pri} {newVersion : VersionItem}
      {answers : Answers crates} {visited rest : List (Str × Nat)} :
      center.Iteration (visited ++ rest) →
      GitStep crates ⟨backend, center, .calling newVersion⟩ (.updatePanics ⟨newVersion⟩)
        ⟨backend, visited.foldl (CFGCenterInner.updateNamespace answers ⟨newVersion⟩) center, .poisoned⟩
  | store {backend : GitBackendInner} {center : CFGCenterInner Pri} {newVersion : VersionItem} :
      GitStep crates ⟨backend, center, .storing newVersion⟩ (.store newVersion)
        ⟨{ backend with curVersion := newVersion }, center, .sleeping⟩
  | create {backend : GitBackendInner} {center : CFGCenterInner Pri} {watcher : Watcher} {ns : Str}
      {level : UpdateNotifyLevel} {callback : Bool} {answers : Answers crates} :
      watcher ≠ .poisoned →
      GitStep crates ⟨backend, center, watcher⟩ (.create ns level callback answers)
        ⟨backend, (center.createNamespaceScopedCfgCenter answers ns level callback).1, watcher⟩

/-! ## What the watcher delivers -/

/-- The event that a step hands to the callback. -/
def GitAction.delivered : GitAction crates → Option StorageChangeEvent
  | .update e _ => some e
  | .updatePanics e => some e
  | _ => none

def GitAction.polled : GitAction crates → Option PollAnswers
  | .poll answers => some answers
  | _ => none

abbrev GitSteps (crates : Crates Pri) := List (Taken (GitCenter Pri) (GitAction crates))

def deliveredIds (steps : GitSteps crates) : List ObjectID :=
  steps.filterMap fun taken => taken.label.delivered.map fun e => e.newVersion.id

/-- The answers of the last poll that has begun. -/
def lastPoll (steps : GitSteps crates) : Option PollAnswers :=
  (steps.filterMap fun taken => taken.label.polled).getLast?

/-- The local branch, the backend and the center have the same version. -/
def GitCenter.Agree (s : GitCenter Pri) : Prop :=
  s.backend.tip = some s.backend.curVersion.id ∧ s.backend.curVersion.id = s.center.currentVersion.id

/-- An event carries the id that the remote listed for the branch in the poll that
delivers it. -/
def CarriesListed (branchName : Str) (before : GitSteps crates)
    (taken : Taken (GitCenter Pri) (GitAction crates)) : Prop :=
  ∀ e, taken.label.delivered = some e →
    ∃ answers, lastPoll before = some answers ∧ answers.listed branchName = some e.newVersion.id

/-- A poll in which a call fails, or which finds nothing new, delivers nothing and
changes no version. -/
def KeepsOnFailure (branchName : Str) (taken : Taken (GitCenter Pri) (GitAction crates)) : Prop :=
  ∀ answers, taken.label = .poll answers →
    (¬ answers.Succeed ∨ ∀ newVersion,
      (gitSyncLocalBranch answers taken.before.backend branchName).2 ≠ .ok (some newVersion)) →
    taken.after.watcher.inPoll = false ∧ taken.after.backend.tip = taken.before.backend.tip ∧
      taken.after.backend.curVersion = taken.before.backend.curVersion ∧
      taken.after.center = taken.before.center

/-- What holds between the steps of the watcher. -/
structure GitCenter.Valid (branchName : Str) (s : GitCenter Pri) : Prop where
  branch : s.backend.targetBranchName = branchName
  rest : s.watcher.inPoll = false → s.Agree
  calling : ∀ newVersion, s.watcher = .calling newVersion →
    s.backend.tip = some newVersion.id ∧ newVersion.id ≠ s.center.currentVersion.id
  storing : ∀ newVersion, s.watcher = .storing newVersion →
    s.backend.tip = some newVersion.id ∧ newVersion.id = s.center.currentVersion.id

variable {s s' : GitCenter Pri} {action : GitAction crates} {branchName : Str}

theorem GitCenter.new_valid {openBare clone : Except Git2Error Repository} {answers : PollAnswers}
    {backend : GitBackendInner} {start : GitCenter Pri}
    (created : GitBackendInner.new openBare clone answers branchName = .ok backend)
    (started : GitCenter.new backend = .ok start) : start.Valid branchName := by
  obtain ⟨branch, current⟩ := GitBackendInner.new_eq_ok created
  simp only [GitCenter.new, current, Except.ok.injEq] at started
  subst started
  exact
    { branch
      rest := fun _ => ⟨getCurrentVersion_tip current, rfl⟩
      calling := fun _ same => by cases same
      storing := fun _ same => by cases same }

theorem afterSync_idle {result : Rust StorageBackendError (Option VersionItem)}
    (nothing : ∀ newVersion, result ≠ .ok (some newVersion)) :
    afterSync result = .sleeping ∨ afterSync result = .ended := by
  match result with
  | .ok (some newVersion) => exact absurd rfl (nothing newVersion)
  | .ok none | .error (.error _) => exact .inl rfl
  | .error .panic => exact .inr rfl

theorem GitStep.valid (step : GitStep crates s action s') (valid : s.Valid branchName) :
    s'.Valid branchName := by
  obtain ⟨branch, rest, calling, storing⟩ := valid
  cases step with
  | @poll backend synced center answers result polled =>
      obtain ⟨tip, same⟩ := rest rfl
      dsimp only at branch tip same
      rcases gitSyncLocalBranch_cases polled with ⟨newVersion, rfl, moved⟩ | ⟨nothing, kept⟩
      · refine ⟨moved.targetBranchName.trans branch, fun idle => (by cases idle), ?_, fun _ at_ => by cases at_⟩
        intro other at_
        cases at_
        exact ⟨moved.tip, same ▸ moved.differs⟩
      · have agree : GitCenter.Agree (⟨synced, center, afterSync result⟩ : GitCenter Pri) :=
          ⟨by rw [kept.tip, kept.curVersion, tip], by rw [kept.curVersion, same]⟩
        have idle := afterSync_idle nothing
        refine ⟨kept.targetBranchName.trans branch, fun _ => agree, ?_, ?_⟩
        · intro other at_
          simp [show afterSync result = .calling other from at_] at idle
        · intro other at_
          simp [show afterSync result = .storing other from at_] at idle
  | @update backend center newVersion answers order iteration =>
      refine ⟨branch, fun idle => (by cases idle), fun _ at_ => (by cases at_), ?_⟩
      intro other at_
      cases at_
      exact ⟨(calling newVersion rfl).1, rfl⟩
  | updatePanics iteration =>
      exact ⟨branch, fun idle => (by cases idle), fun _ at_ => (by cases at_), fun _ at_ => by cases at_⟩
  | @store backend center newVersion =>
      obtain ⟨tip, same⟩ := storing newVersion rfl
      exact ⟨branch, fun _ => ⟨tip, same⟩, fun _ at_ => (by cases at_), fun _ at_ => by cases at_⟩
  | @create backend center watcher ns level callback answers healthy =>
      have kept : (center.createNamespaceScopedCfgCenter answers ns level callback).1.currentVersion.id =
          center.currentVersion.id := congrArg VersionItem.id create_currentVersion
      refine ⟨branch, fun idle => ?_, fun other at_ => ?_, fun other at_ => ?_⟩
      · obtain ⟨tip, same⟩ := rest idle
        exact ⟨tip, same.trans kept.symm⟩
      · obtain ⟨tip, differs⟩ := calling other at_
        exact ⟨tip, fun same => differs (same.trans kept)⟩
      · obtain ⟨tip, same⟩ := storing other at_
        exact ⟨tip, same.trans kept.symm⟩

/-- A poll that does not move the branch keeps all versions. -/
theorem GitStep.keepsOnFailure (step : GitStep crates s action s') (valid : s.Valid branchName) :
    KeepsOnFailure branchName ⟨s, action, s'⟩ := by
  intro answers polls fails
  dsimp only at polls fails ⊢
  subst polls
  cases step with
  | @poll backend synced center answers result polled =>
      have branch : backend.targetBranchName = branchName := valid.branch
      dsimp only at fails ⊢
      rw [← branch, polled] at fails
      rcases gitSyncLocalBranch_cases polled with ⟨newVersion, rfl, moved⟩ | ⟨nothing, kept⟩
      · rcases fails with failed | nothing
        · exact absurd moved.succeed failed
        · exact absurd rfl (nothing newVersion)
      · refine ⟨?_, kept.tip, kept.curVersion, rfl⟩
        rcases afterSync_idle nothing with same | same
        · rw [same]
          rfl
        · rw [same]
          rfl

/-! ## What a run delivers -/

/-- The steps so far, in terms of the state that they reach. -/
structure Delivers (branchName : Str) (startId : ObjectID) (steps : GitSteps crates)
    (s : GitCenter Pri) : Prop where
  calling : ∀ newVersion, s.watcher = .calling newVersion →
    ∃ answers, lastPoll steps = some answers ∧ answers.listed branchName = some newVersion.id
  carries : Each (CarriesListed branchName) steps
  chain : List.IsChain (· ≠ ·) (startId :: deliveredIds steps)
  last : s.watcher ≠ .poisoned →
    (startId :: deliveredIds steps).getLast? = some s.center.currentVersion.id

section Snoc

variable (steps : GitSteps crates) (taken : Taken (GitCenter Pri) (GitAction crates))

theorem deliveredIds_snoc : deliveredIds (steps ++ [taken]) =
    deliveredIds steps ++ (taken.label.delivered.map fun e => e.newVersion.id).toList := by
  simp only [deliveredIds, List.filterMap_append]
  cases delivered : taken.label.delivered <;> simp [delivered]

theorem lastPoll_snoc : lastPoll (steps ++ [taken]) = taken.label.polled.or (lastPoll steps) := by
  simp only [lastPoll, List.filterMap_append]
  cases polled : taken.label.polled <;> simp [polled]

end Snoc

theorem Delivers.snoc {steps : GitSteps crates} {startId : ObjectID} (valid : s.Valid branchName)
    (delivers : Delivers branchName startId steps s) (step : GitStep crates s action s') :
    Delivers branchName startId (steps ++ [⟨s, action, s'⟩]) s' := by
  obtain ⟨calling, carries, chain, last⟩ := delivers
  have quiet : action.delivered = none → Each (CarriesListed branchName) (steps ++ [⟨s, action, s'⟩]) ∧
      deliveredIds (steps ++ [⟨s, action, s'⟩]) = deliveredIds steps := by
    intro nothing
    refine ⟨each_snoc.mpr ⟨carries, fun e delivered => ?_⟩, ?_⟩
    · rw [nothing] at delivered
      cases delivered
    · simp [deliveredIds_snoc, nothing]
  have delivering : ∀ newVersion, s.watcher = .calling newVersion → action.delivered = some ⟨newVersion⟩ →
      Each (CarriesListed branchName) (steps ++ [⟨s, action, s'⟩]) ∧
      List.IsChain (· ≠ ·) (startId :: deliveredIds (steps ++ [⟨s, action, s'⟩])) ∧
      (startId :: deliveredIds (steps ++ [⟨s, action, s'⟩])).getLast? = some newVersion.id := by
    intro newVersion at_ delivered
    have healthy : s.watcher ≠ .poisoned := by simp [at_]
    have ids : startId :: deliveredIds (steps ++ [⟨s, action, s'⟩]) =
        (startId :: deliveredIds steps) ++ [newVersion.id] := by
      simp [deliveredIds_snoc, delivered]
    refine ⟨each_snoc.mpr ⟨carries, fun e delivered' => ?_⟩, ?_, ?_⟩
    · rw [delivered] at delivered'
      cases delivered'
      exact calling newVersion at_
    · rw [ids, List.isChain_append]
      refine ⟨chain, .singleton _, fun earlier member latest member' => ?_⟩
      rw [last healthy] at member
      cases member
      cases member'
      exact (valid.calling newVersion at_).2.symm
    · rw [ids, List.getLast?_concat]
  cases step with
  | @poll backend synced center answers result polled =>
      obtain ⟨carries', same⟩ := quiet rfl
      refine ⟨?_, carries', same ▸ chain, fun _ => same ▸ last (by simp)⟩
      intro newVersion at_
      rw [lastPoll_snoc]
      refine ⟨answers, rfl, ?_⟩
      rcases gitSyncLocalBranch_cases polled with ⟨moved', rfl, moved⟩ | ⟨nothing, -⟩
      · cases at_
        rw [← valid.branch]
        exact moved.listed
      · have idle := afterSync_idle nothing
        simp [show afterSync result = .calling newVersion from at_] at idle
  | @update backend center newVersion answers order iteration =>
      obtain ⟨carries', chain', last'⟩ := delivering newVersion rfl rfl
      exact ⟨fun _ at_ => (by cases at_), carries', chain', fun _ => last'⟩
  | @updatePanics backend center newVersion answers visited rest iteration =>
      obtain ⟨carries', chain', -⟩ := delivering newVersion rfl rfl
      exact ⟨fun _ at_ => (by cases at_), carries', chain', fun healthy => absurd rfl healthy⟩
  | store =>
      obtain ⟨carries', same⟩ := quiet rfl
      exact ⟨fun _ at_ => (by cases at_), carries', same ▸ chain, fun _ => same ▸ last (by simp)⟩
  | @create backend center watcher ns level callback answers healthy =>
      obtain ⟨carries', same⟩ := quiet rfl
      refine ⟨?_, carries', same ▸ chain, fun _ => ?_⟩
      · intro newVersion at_
        rw [lastPoll_snoc]
        exact calling newVersion at_
      · rw [same, last healthy, create_currentVersion]

/-- Between polls the local branch, the backend and the center have the same version.
Each event carries the listed id and differs from the one before, the first from the
version at the start, and a poll that fails keeps all versions. -/
theorem gitWatcher_follows (openBare clone : Except Git2Error Repository) (answers : PollAnswers)
    (branchName : Str) (backend : GitBackendInner) (start state : GitCenter Pri) (steps : GitSteps crates)
    (created : GitBackendInner.new openBare clone answers branchName = .ok backend)
    (started : GitCenter.new backend = .ok start) (run : Run (GitStep crates) start steps state) :
    (state.watcher.inPoll = false → state.Agree) ∧
    Each (CarriesListed branchName) steps ∧
    List.IsChain (· ≠ ·) (start.center.currentVersion.id :: deliveredIds steps) ∧
    ∀ taken ∈ steps, KeepsOnFailure branchName taken := by
  have valid := GitCenter.new_valid created started
  have keeps : ∀ s (action : GitAction crates) s', s.Valid branchName → GitStep crates s action s' →
      s'.Valid branchName := fun _ _ _ valid step => step.valid valid
  have sleeps : start.watcher = .sleeping := by
    unfold GitCenter.new at started
    split at started
    · cases started
    · cases started
      rfl
  have first : Delivers branchName start.center.currentVersion.id ([] : GitSteps crates) start :=
    ⟨fun _ at_ => (by simp [sleeps] at at_), each_nil, .singleton _, fun _ => rfl⟩
  have delivers := run.history valid keeps first fun _ _ _ _ valid delivers step => delivers.snoc valid step
  refine ⟨(run.invariant valid keeps).rest, delivers.carries, delivers.chain, fun taken member => ?_⟩
  obtain ⟨before, after, rfl⟩ := List.append_of_mem member
  obtain ⟨earlier, here, -⟩ := run.split_at
  exact here.keepsOnFailure (earlier.invariant valid keeps)

/-! ### One new commit -/

section Sample

def firstCommit : Commit := { id := toUtf8 ['1'], messageBytes := toUtf8 ['a'] }

def secondCommit : Commit := { id := toUtf8 ['2'], messageBytes := toUtf8 ['b'] }

def sampleRepository : Repository :=
  { commits := [firstCommit], branches := fun _ => some firstCommit.id }

/-- The remote lists a commit and sends another. -/
def sampleListing (listed sent : Commit) : PollAnswers where
  createDetached := .ok ()
  connectAuth := .ok ()
  list := .ok [⟨refspec ['m'], listed.id⟩]
  findRemote := .ok ()
  received := [sent]
  fetch := .ok ()
  findCommit := .ok ()
  branch := .ok ()

theorem commits_differ : secondCommit.id ≠ firstCommit.id := by
  intro same
  have texts := congrArg fromUtf8 same
  simp [secondCommit, firstCommit, fromUtf8_toUtf8] at texts

theorem sampleListing_synced (inner : GitBackendInner) (listed : Commit)
    (moved : listed.id ≠ inner.curVersion.id) :
    gitSyncLocalBranch (sampleListing listed listed) inner ['m'] =
      ({ inner with gitRepo := (inner.gitRepo.receive [listed]).branch inner.targetBranchName listed },
        .ok (some { name := listed.message.getD [], id := listed.id })) := by
  simp [gitSyncLocalBranch, sampleListing, newestRemoteCommitId, moved, fetchAndMove,
    Repository.findCommit, Repository.receive, Except.bind]

def sampleFollower : GitBackendInner where
  gitRepo := (sampleRepository.receive [firstCommit]).branch ['m'] firstCommit
  targetBranchName := ['m']
  curVersion := { name := ['a'], id := firstCommit.id }

theorem sampleFollower_current : sampleFollower.getCurrentVersion = .ok sampleFollower.curVersion := by
  simp [GitBackendInner.getCurrentVersion, GitBackendInner.tip, sampleFollower, Repository.branch,
    Repository.findCommit, Repository.receive, Commit.message, firstCommit, fromUtf8_toUtf8]

theorem sampleFollower_new : GitBackendInner.new (.ok sampleRepository) (.error [])
    (sampleListing firstCommit firstCommit) ['m'] = .ok sampleFollower := by
  have named : firstCommit.id ≠ ByteArray.empty := by
    intro same
    have texts := congrArg fromUtf8 same
    have none : fromUtf8 ByteArray.empty = some [] := fromUtf8_toUtf8 []
    simp [none, firstCommit, fromUtf8_toUtf8] at texts
  have current : ({ sampleFollower with curVersion := { name := [], id := .empty } } :
      GitBackendInner).getCurrentVersion = .ok sampleFollower.curVersion := sampleFollower_current
  simp only [GitBackendInner.new, Except.toOption]
  rw [sampleListing_synced _ _ named]
  dsimp only
  simp only [sampleFollower] at current ⊢
  rw [current]

def sampleWatched : GitCenter Nat :=
  { backend := sampleFollower, center := .new sampleFollower.curVersion, watcher := .sleeping }

theorem gitWatcher_follows_sample : ∃ steps state, Run (GitStep sampleCrates) sampleWatched steps state ∧
    deliveredIds steps = [secondCommit.id] ∧ state.Agree := by
  have synced := sampleListing_synced sampleFollower secondCommit commits_differ
  have empty : (CFGCenterInner.new sampleFollower.curVersion : CFGCenterInner Nat).Iteration [] :=
    ⟨by simp, fun ns id => by simp [CFGCenterInner.new]⟩
  have polled : Run (GitStep sampleCrates) sampleWatched _ _ := Run.nil.snoc (.poll synced)
  have updated := polled.snoc (show GitStep sampleCrates _ (.update _ sampleAnswers) _ from .update empty)
  have stored := updated.snoc .store
  refine ⟨_, _, stored, rfl, ?_⟩
  have started : GitCenter.new sampleFollower = .ok sampleWatched := by
    simp only [GitCenter.new, sampleFollower_current]
    rfl
  exact (gitWatcher_follows (.ok sampleRepository) (.error []) (sampleListing firstCommit firstCommit) ['m']
    sampleFollower sampleWatched _ _ sampleFollower_new started stored).1 rfl

end Sample

end Eafcc.CfgCenter
