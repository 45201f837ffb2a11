import Eafcc.Storage.GitSync

namespace Eafcc.Storage

open Eafcc.Model

/-! # A sync with any remote -/

variable {answers : PollAnswers} {inner after : GitBackendInner} {branchName : Str}

/-- The head that the remote advertises for a branch, if it is asked. -/
def PollAnswers.advertised (answers : PollAnswers) (branchName : Str) : Option ObjectID :=
  if answers.createDetached = .ok () ∧ answers.connectAuth = .ok () then answers.listed branchName else none

/-- The sync returns: nothing exactly where the advertised head is the current version,
a new version only if it is the advertised head, and otherwise an error that leaves the
local branch. -/
structure Survives (answers : PollAnswers) (branchName : Str) (inner after : GitBackendInner)
    (result : Rust StorageBackendError (Option VersionItem)) : Prop where
  returns : result ≠ .error .panic
  upToDate : result = .ok none ↔ answers.advertised branchName = some inner.curVersion.id
  unchanged : result = .ok none → after = inner
  moved : ∀ newVersion, result = .ok (some newVersion) → answers.advertised branchName = some newVersion.id
  kept : (∀ newest, result ≠ .ok newest) → inner.Keeps after

/-- The remote is asked, nothing fails up to the fetch, and then there is no id to
unwrap. A panic of the callback for the credentials comes before that. -/
def Unwraps (answers : PollAnswers) (branchName : Str) (curId : ObjectID) : Prop :=
  answers.createDetached = .ok () ∧
    (answers.connectAuth = .error .panic ∨
      (answers.connectAuth = .ok () ∧ (∃ heads, answers.list = .ok heads) ∧
        answers.listed branchName ≠ some curId ∧ answers.findRemote = .ok () ∧
        (answers.fetch = .error .panic ∨
          (answers.fetch = .ok () ∧ answers.listed branchName = none))))

theorem newestRemoteCommitId_eq (name : Str) (curId : ObjectID) (heads : List RemoteHead) :
    newestRemoteCommitId name curId heads =
      match (heads.find? fun head => head.name == name).map RemoteHead.oid with
      | none => some none
      | some id => if id = curId then none else some (some id) := by
  induction heads with
  | nil => rfl
  | cons head rest ih =>
      by_cases same : head.name = name
      · rw [List.find?_cons_of_pos (by simpa using same)]
        simp [newestRemoteCommitId, same]
      · rw [List.find?_cons_of_neg (by simpa using same), ← ih]
        simp [newestRemoteCommitId, same]

theorem fetchAndMove_ne_none (newest : Option ObjectID) : (fetchAndMove answers inner newest).2 ≠ .ok none := by
  unfold fetchAndMove
  match answers.findRemote, answers.fetch with
  | .error e, _ => simp [Rust.fail]
  | .ok (), .error (.error e) => simp [Rust.fail]
  | .ok (), .error .panic => simp [Rust.panics]
  | .ok (), .ok () =>
      cases newest with
      | none => simp [Rust.panics]
      | some newestId =>
          dsimp only
          split
          · simp [Rust.fail]
          · cases answers.branch <;> simp [Rust.fail]

theorem fetchAndMove_eq_panic (newest : Option ObjectID) :
    (fetchAndMove answers inner newest).2 = .error .panic ↔
      answers.findRemote = .ok () ∧
        (answers.fetch = .error .panic ∨ (answers.fetch = .ok () ∧ newest = none)) := by
  unfold fetchAndMove
  match answers.findRemote, answers.fetch with
  | .error e, _ => simp [Rust.fail]
  | .ok (), .error (.error e) => simp [Rust.fail]
  | .ok (), .error .panic => simp [Rust.panics]
  | .ok (), .ok () =>
      cases newest with
      | none => simp [Rust.panics]
      | some newestId =>
          dsimp only
          split
          · simp [Rust.fail]
          · cases answers.branch <;> simp [Rust.fail]

/-- From the scan of the heads on. -/
theorem gitSyncLocalBranch_scan (created : answers.createDetached = .ok ())
    (connected : answers.connectAuth = .ok ()) {heads : List RemoteHead} (list : answers.list = .ok heads) :
    gitSyncLocalBranch answers inner branchName =
      match answers.listed branchName with
      | none => fetchAndMove answers inner none
      | some id => if id = inner.curVersion.id then (inner, .ok none) else fetchAndMove answers inner (some id) := by
  unfold gitSyncLocalBranch
  simp only [created, connected, list, newestRemoteCommitId_eq, PollAnswers.listed]
  cases (heads.find? fun head => head.name == refspec branchName).map RemoteHead.oid with
  | none => rfl
  | some id =>
      by_cases same : id = inner.curVersion.id
      · simp [same]
      · simp [same]

theorem PollAnswers.listed_of_error {e : Git2Error} (failed : answers.list = .error e) :
    answers.listed branchName = none := by
  simp only [listed, failed]

/-- What a sync does before the scan, or from it on. -/
theorem gitSyncLocalBranch_outcome :
    (∃ e, gitSyncLocalBranch answers inner branchName = (inner, Rust.fail (.git2Error e)) ∧
      answers.advertised branchName = none ∧ ¬ Unwraps answers branchName inner.curVersion.id) ∨
    (gitSyncLocalBranch answers inner branchName = (inner, Rust.panics) ∧
      answers.advertised branchName = none ∧ Unwraps answers branchName inner.curVersion.id) ∨
    (answers.createDetached = .ok () ∧ answers.connectAuth = .ok () ∧ ∃ heads, answers.list = .ok heads) := by
  match created : answers.createDetached with
  | .error e =>
      exact .inl ⟨e, by simp [gitSyncLocalBranch, created], by simp [PollAnswers.advertised, created],
        by simp [Unwraps, created]⟩
  | .ok () =>
      match connected : answers.connectAuth with
      | .error (.error e) =>
          exact .inl ⟨e, by simp [gitSyncLocalBranch, created, connected],
            by simp [PollAnswers.advertised, connected], by simp [Unwraps, connected]⟩
      | .error .panic =>
          exact .inr (.inl ⟨by simp [gitSyncLocalBranch, created, connected],
            by simp [PollAnswers.advertised, connected], by simp [Unwraps, created, connected]⟩)
      | .ok () =>
          match list : answers.list with
          | .error e =>
              exact .inl ⟨e, by simp [gitSyncLocalBranch, created, connected, list],
                by simp [PollAnswers.advertised, PollAnswers.listed_of_error list],
                by simp [Unwraps, connected, list]⟩
          | .ok heads => exact .inr (.inr ⟨rfl, rfl, heads, rfl⟩)

/-- A sync panics exactly where there is no id to unwrap. -/
theorem gitSyncLocalBranch_eq_panic : (gitSyncLocalBranch answers inner branchName).2 = .error .panic ↔
    Unwraps answers branchName inner.curVersion.id := by
  rcases @gitSyncLocalBranch_outcome answers inner branchName with failed | panicked | scanned
  · obtain ⟨e, same, -, quiet⟩ := failed
    simp [same, quiet, Rust.fail]
  · obtain ⟨same, -, unwraps⟩ := panicked
    simp [same, unwraps, Rust.panics]
  · obtain ⟨created, connected, heads, list⟩ := scanned
    rw [gitSyncLocalBranch_scan created connected list]
    cases listed : answers.listed branchName with
    | none => simp [fetchAndMove_eq_panic, Unwraps, created, connected, list, listed]
    | some id =>
        by_cases same : id = inner.curVersion.id
        · simp [Unwraps, connected, listed, same]
        · simp [fetchAndMove_eq_panic, Unwraps, created, connected, list, listed, same]

/-- A sync finds nothing new exactly where the advertised head is the current version. -/
theorem gitSyncLocalBranch_eq_none : (gitSyncLocalBranch answers inner branchName).2 = .ok none ↔
    answers.advertised branchName = some inner.curVersion.id := by
  rcases @gitSyncLocalBranch_outcome answers inner branchName with failed | panicked | scanned
  · obtain ⟨e, same, silent, -⟩ := failed
    simp [same, silent, Rust.fail]
  · obtain ⟨same, silent, -⟩ := panicked
    simp [same, silent, Rust.panics]
  · obtain ⟨created, connected, heads, list⟩ := scanned
    rw [gitSyncLocalBranch_scan created connected list, PollAnswers.advertised, if_pos ⟨created, connected⟩]
    cases listed : answers.listed branchName with
    | none => simp [fetchAndMove_ne_none]
    | some id =>
        by_cases same : id = inner.curVersion.id
        · simp [same]
        · simp [fetchAndMove_ne_none, same]

theorem gitSyncLocalBranch_unchanged (upToDate : answers.advertised branchName = some inner.curVersion.id) :
    gitSyncLocalBranch answers inner branchName = (inner, .ok none) := by
  rcases @gitSyncLocalBranch_outcome answers inner branchName with failed | panicked | scanned
  · obtain ⟨e, -, silent, -⟩ := failed
    rw [silent] at upToDate
    cases upToDate
  · obtain ⟨-, silent, -⟩ := panicked
    rw [silent] at upToDate
    cases upToDate
  · obtain ⟨created, connected, heads, list⟩ := scanned
    rw [PollAnswers.advertised, if_pos ⟨created, connected⟩] at upToDate
    rw [gitSyncLocalBranch_scan created connected list, upToDate]
    simp

/-- A sync survives a remote exactly if it has an id to unwrap where it gets to that and
the callback for the credentials does not panic. -/
theorem gitSyncLocalBranch_survives_iff (answers : PollAnswers) (inner : GitBackendInner) (branchName : Str) :
    Survives answers branchName inner (gitSyncLocalBranch answers inner branchName).1
        (gitSyncLocalBranch answers inner branchName).2 ↔
      ¬ Unwraps answers branchName inner.curVersion.id := by
  rw [← gitSyncLocalBranch_eq_panic]
  constructor
  · intro survives
    exact survives.returns
  · intro returns
    refine ⟨returns, gitSyncLocalBranch_eq_none, fun none_ => ?_, fun newVersion some_ => ?_, fun fails => ?_⟩
    · rw [gitSyncLocalBranch_unchanged (gitSyncLocalBranch_eq_none.mp none_)]
    · rcases gitSyncLocalBranch_cases (Prod.mk.eta (p := gitSyncLocalBranch answers inner branchName)).symm
        with moved | kept
      · obtain ⟨newVersion', same, moved⟩ := moved
        rw [some_] at same
        cases same
        rw [PollAnswers.advertised, if_pos ⟨moved.succeed.createDetached, moved.succeed.connectAuth⟩]
        exact moved.listed
      · exact absurd some_ (kept.1 newVersion)
    · rcases gitSyncLocalBranch_cases (Prod.mk.eta (p := gitSyncLocalBranch answers inner branchName)).symm
        with moved | kept
      · obtain ⟨newVersion, same, -⟩ := moved
        exact absurd same (fails _)
      · exact kept.2

/-! ### A branch that was deleted on the server -/

section Sample

def goneBranch : Str := "main".toList

def goneAnswers : PollAnswers where
  createDetached := .ok ()
  connectAuth := .ok ()
  list := .ok [⟨"HEAD".toList, .empty⟩, ⟨"refs/heads/next".toList, .empty⟩]
  findRemote := .ok ()
  received := []
  fetch := .ok ()
  findCommit := .ok ()
  branch := .ok ()

def goneBackend : GitBackendInner where
  gitRepo := { commits := [⟨⟨Array.replicate 20 1⟩, .empty⟩], branches := fun _ => some ⟨Array.replicate 20 1⟩ }
  targetBranchName := goneBranch
  curVersion := { name := [], id := ⟨Array.replicate 20 1⟩ }

/-- A sync with a remote that no longer has the branch panics, with all calls
successful. -/
theorem gitSyncLocalBranch_branch_gone : goneAnswers.Succeed ∧
    goneBackend.getCurrentVersion = .ok goneBackend.curVersion ∧
    goneAnswers.advertised goneBranch = none ∧
    (gitSyncLocalBranch goneAnswers goneBackend goneBranch).2 = .error .panic ∧
    ¬ Survives goneAnswers goneBranch goneBackend (gitSyncLocalBranch goneAnswers goneBackend goneBranch).1
      (gitSyncLocalBranch goneAnswers goneBackend goneBranch).2 := by
  have panics : (gitSyncLocalBranch goneAnswers goneBackend goneBranch).2 = .error .panic := rfl
  exact ⟨⟨rfl, rfl, ⟨_, rfl⟩, rfl, rfl, rfl, rfl⟩, rfl, rfl, panics, fun survives => survives.returns panics⟩

end Sample

end Eafcc.Storage
