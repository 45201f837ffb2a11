import Eafcc.Storage.Filesystem

namespace Eafcc.Storage

open Eafcc.Model

/-! # Following a branch of a remote repository -/

structure Commit where
  id : ObjectID
  messageBytes : Bytes

def Commit.message (commit : Commit) : Option Str := fromUtf8 commit.messageBytes

/-- The commits that a repository holds and the tips of its local branches. -/
structure Repository where
  commits : List Commit
  branches : Str → Option ObjectID

namespace Repository

def findCommit (repo : Repository) (id : ObjectID) : Except Git2Error Commit :=
  match repo.commits.find? fun commit => commit.id = id with
  | some commit => .ok commit
  | none => .error "object not found".toList

/-- A fetch adds commits. Its refspec has no destination, so no local branch moves. -/
def receive (repo : Repository) (commits : List Commit) : Repository :=
  { repo with commits := commits ++ repo.commits }

def branch (repo : Repository) (name : Str) (commit : Commit) : Repository :=
  { repo with branches := Function.update repo.branches name (some commit.id) }

theorem findCommit_id {repo : Repository} {id : ObjectID} {commit : Commit}
    (found : repo.findCommit id = .ok commit) : commit.id = id := by
  unfold findCommit at found
  split at found
  · rename_i first
    cases found
    simpa using List.find?_some first
  · cases found

end Repository

structure RemoteHead where
  name : Str
  oid : ObjectID

/-- How the calls to git end in one poll. Connecting and fetching run the callback for
the credentials, which may panic. A fetch may add commits also where it fails. -/
structure PollAnswers where
  createDetached : Except Git2Error Unit
  connectAuth : Rust Git2Error Unit
  list : Except Git2Error (List RemoteHead)
  findRemote : Except Git2Error Unit
  received : List Commit
  fetch : Rust Git2Error Unit
  findCommit : Except Git2Error Unit
  branch : Except Git2Error Unit

/-- Every call succeeds. -/
structure PollAnswers.Succeed (answers : PollAnswers) : Prop where
  createDetached : answers.createDetached = .ok ()
  connectAuth : answers.connectAuth = .ok ()
  list : ∃ heads, answers.list = .ok heads
  findRemote : answers.findRemote = .ok ()
  fetch : answers.fetch = .ok ()
  findCommit : answers.findCommit = .ok ()
  branch : answers.branch = .ok ()

def refspec (branchName : Str) : Str := "refs/heads/".toList ++ branchName

/-- The id that the remote lists for a branch. -/
def PollAnswers.listed (answers : PollAnswers) (branchName : Str) : Option ObjectID :=
  match answers.list with
  | .ok heads => (heads.find? fun head => head.name == refspec branchName).map RemoteHead.oid
  | .error _ => none

structure GitBackendInner where
  gitRepo : Repository
  targetBranchName : Str
  curVersion : VersionItem

def GitBackendInner.tip (inner : GitBackendInner) : Option ObjectID :=
  inner.gitRepo.branches inner.targetBranchName

/-- The loop over the heads, which returns early where the branch has not moved. -/
def newestRemoteCommitId (branchName : Str) (curId : ObjectID) :
    List RemoteHead → Option (Option ObjectID)
  | [] => some none
  | remoteHead :: rest =>
      if remoteHead.name ≠ branchName then newestRemoteCommitId branchName curId rest
      else if remoteHead.oid = curId then none
      else some (some remoteHead.oid)

section Sync

variable (answers : PollAnswers) (inner : GitBackendInner) (branchName : Str)

/-- From the fetch on. The id is unwrapped after the fetch. -/
def fetchAndMove (newest : Option ObjectID) :
    GitBackendInner × Rust StorageBackendError (Option VersionItem) :=
  match answers.findRemote with
  | .error e => (inner, Rust.fail (.git2Error e))
  | .ok () =>
      let fetched := { inner with gitRepo := inner.gitRepo.receive answers.received }
      match answers.fetch with
      | .error (.error e) => (fetched, Rust.fail (.git2Error e))
      | .error .panic => (fetched, Rust.panics)
      | .ok () =>
          match newest with
          | none => (fetched, Rust.panics)
          | some newestId =>
              match answers.findCommit.bind fun _ => fetched.gitRepo.findCommit newestId with
              | .error e => (fetched, Rust.fail (.git2Error e))
              | .ok newCommit =>
                  match answers.branch with
                  | .error e => (fetched, Rust.fail (.git2Error e))
                  | .ok () =>
                      let moved := fetched.gitRepo.branch inner.targetBranchName newCommit
                      ({ fetched with gitRepo := moved },
                        .ok (some { name := newCommit.message.getD [], id := newCommit.id }))

def gitSyncLocalBranch : GitBackendInner × Rust StorageBackendError (Option VersionItem) :=
  match answers.createDetached with
  | .error e => (inner, Rust.fail (.git2Error e))
  | .ok () =>
      match answers.connectAuth with
      | .error (.error e) => (inner, Rust.fail (.git2Error e))
      | .error .panic => (inner, Rust.panics)
      | .ok () =>
          match answers.list with
          | .error e => (inner, Rust.fail (.git2Error e))
          | .ok remoteHeads =>
              match newestRemoteCommitId (refspec branchName) inner.curVersion.id remoteHeads with
              | none => (inner, .ok none)
              | some newest => fetchAndMove answers inner newest

end Sync

/-- The version at the tip of the local branch. -/
def GitBackendInner.getCurrentVersion (inner : GitBackendInner) : Except StorageBackendError VersionItem :=
  match inner.tip with
  | none => .error (.git2Error "cannot locate local branch".toList)
  | some id =>
      match inner.gitRepo.findCommit id with
      | .error e => .error (.git2Error e)
      | .ok commit =>
          match commit.message with
          | none => .error .utf8Error
          | some name => .ok { name, id := commit.id }

/-- `GitBackend::new` with what opening and cloning give. -/
def GitBackendInner.new (openBare clone : Except Git2Error Repository) (answers : PollAnswers)
    (targetBranchName : Str) : Rust StorageBackendError GitBackendInner :=
  match openBare.toOption, clone with
  | none, .error e => Rust.fail (.git2Error e)
  | some gitRepo, _ | none, .ok gitRepo =>
      let opened : GitBackendInner :=
        { gitRepo, targetBranchName, curVersion := { name := [], id := .empty } }
      match gitSyncLocalBranch answers opened targetBranchName with
      | (_, .error failure) => .error failure
      | (synced, .ok _) =>
          match synced.getCurrentVersion with
          | .error reason => Rust.fail reason
          | .ok curVersion => .ok { synced with curVersion }

/-! ## What a poll does -/

variable {answers : PollAnswers} {inner after : GitBackendInner} {branchName : Str}

theorem newestRemoteCommitId_eq_some {name : Str} {curId id : ObjectID} {heads : List RemoteHead}
    (newest : newestRemoteCommitId name curId heads = some (some id)) :
    (heads.find? fun head => head.name == name).map RemoteHead.oid = some id ∧ id ≠ curId := by
  induction heads with
  | nil => cases newest
  | cons head rest ih =>
      simp only [newestRemoteCommitId] at newest
      split at newest
      · rename_i other
        rw [List.find?_cons_of_neg (by simpa using other)]
        exact ih newest
      · rename_i same
        split at newest
        · cases newest
        · rename_i moved
          cases newest
          rw [List.find?_cons_of_pos (by simpa using same)]
          exact ⟨rfl, moved⟩

/-- The backend differs at most in the commits that its repository holds. -/
structure GitBackendInner.Keeps (inner after : GitBackendInner) : Prop where
  targetBranchName : after.targetBranchName = inner.targetBranchName
  curVersion : after.curVersion = inner.curVersion
  tip : after.tip = inner.tip

theorem GitBackendInner.Keeps.refl (inner : GitBackendInner) : inner.Keeps inner := ⟨rfl, rfl, rfl⟩

/-- The branch was moved to a listed commit that is not the current one. -/
structure Moved (answers : PollAnswers) (branchName : Str) (inner after : GitBackendInner)
    (newVersion : VersionItem) : Prop where
  succeed : answers.Succeed
  targetBranchName : after.targetBranchName = inner.targetBranchName
  curVersion : after.curVersion = inner.curVersion
  tip : after.tip = some newVersion.id
  listed : answers.listed branchName = some newVersion.id
  differs : newVersion.id ≠ inner.curVersion.id

/-- From the fetch on, a poll moves the branch to the listed commit in its last call
that may fail. -/
theorem fetchAndMove_cases {newest : Option ObjectID} {result : Rust StorageBackendError (Option VersionItem)}
    (synced : fetchAndMove answers inner newest = (after, result)) :
    (∃ newVersion, result = .ok (some newVersion) ∧ newest = some newVersion.id ∧
      answers.findRemote = .ok () ∧ answers.fetch = .ok () ∧ answers.findCommit = .ok () ∧
      answers.branch = .ok () ∧ after.targetBranchName = inner.targetBranchName ∧
      after.curVersion = inner.curVersion ∧ after.tip = some newVersion.id) ∨
    ((∀ newVersion, result ≠ .ok (some newVersion)) ∧ inner.Keeps after) := by
  have fetchedKeeps : inner.Keeps { inner with gitRepo := inner.gitRepo.receive answers.received } :=
    ⟨rfl, rfl, rfl⟩
  unfold fetchAndMove at synced
  cases remote : answers.findRemote with
  | error e =>
      simp only [remote] at synced
      cases synced
      exact .inr ⟨by simp [Rust.fail], .refl inner⟩
  | ok found =>
      simp only [remote] at synced
      cases fetched : answers.fetch with
      | error failure =>
          simp only [fetched] at synced
          cases failure with
          | error e =>
              cases synced
              exact .inr ⟨by simp [Rust.fail], fetchedKeeps⟩
          | panic =>
              cases synced
              exact .inr ⟨by simp [Rust.panics], fetchedKeeps⟩
      | ok received =>
          simp only [fetched] at synced
          cases newest with
          | none =>
              cases synced
              exact .inr ⟨by simp [Rust.panics], fetchedKeeps⟩
          | some newestId =>
              simp only at synced
              split at synced
              · cases synced
                exact .inr ⟨by simp [Rust.fail], fetchedKeeps⟩
              · rename_i newCommit looked
                cases lookup : answers.findCommit with
                | error e =>
                    rw [lookup] at looked
                    cases looked
                | ok present =>
                    rw [lookup] at looked
                    have named := Repository.findCommit_id looked
                    cases branched : answers.branch with
                    | error e =>
                        simp only [branched] at synced
                        cases synced
                        exact .inr ⟨by simp [Rust.fail], fetchedKeeps⟩
                    | ok moved =>
                        simp only [branched] at synced
                        cases synced
                        refine .inl ⟨_, rfl, by rw [named], rfl, rfl, rfl, rfl, rfl, rfl, ?_⟩
                        simp [GitBackendInner.tip, Repository.branch]

/-- A poll either moves the branch and returns the new version, or it changes none of
the versions. -/
theorem gitSyncLocalBranch_cases {result : Rust StorageBackendError (Option VersionItem)}
    (synced : gitSyncLocalBranch answers inner branchName = (after, result)) :
    (∃ newVersion, result = .ok (some newVersion) ∧ Moved answers branchName inner after newVersion) ∨
    ((∀ newVersion, result ≠ .ok (some newVersion)) ∧ inner.Keeps after) := by
  unfold gitSyncLocalBranch at synced
  cases created : answers.createDetached with
  | error e =>
      simp only [created] at synced
      cases synced
      exact .inr ⟨by simp [Rust.fail], .refl inner⟩
  | ok detached =>
      simp only [created] at synced
      cases connected : answers.connectAuth with
      | error failure =>
          simp only [connected] at synced
          cases failure with
          | error e =>
              cases synced
              exact .inr ⟨by simp [Rust.fail], .refl inner⟩
          | panic =>
              cases synced
              exact .inr ⟨by simp [Rust.panics], .refl inner⟩
      | ok connection =>
          simp only [connected] at synced
          cases heads : answers.list with
          | error e =>
              simp only [heads] at synced
              cases synced
              exact .inr ⟨by simp [Rust.fail], .refl inner⟩
          | ok remoteHeads =>
              simp only [heads] at synced
              split at synced
              · cases synced
                exact .inr ⟨by simp, .refl inner⟩
              · rename_i newest sought
                rcases fetchAndMove_cases synced with moved | kept
                · obtain ⟨newVersion, returns, rfl, remote, fetched, lookup, branched, target, cur, tip⟩ := moved
                  obtain ⟨listed, differs⟩ := newestRemoteCommitId_eq_some sought
                  exact .inl ⟨newVersion, returns,
                    { succeed := ⟨created, connected, ⟨_, heads⟩, remote, fetched, lookup, branched⟩
                      targetBranchName := target
                      curVersion := cur
                      tip
                      listed := by simpa only [PollAnswers.listed, heads] using listed
                      differs }⟩
                · exact .inr kept

theorem getCurrentVersion_tip {version : VersionItem} (current : inner.getCurrentVersion = .ok version) :
    inner.tip = some version.id := by
  unfold GitBackendInner.getCurrentVersion at current
  split at current
  · cases current
  · rename_i id tip
    split at current
    · cases current
    · rename_i commit found
      split at current
      · cases current
      · cases current
        rw [tip, Repository.findCommit_id found]

/-- The local branch of a new backend stands at its current version. -/
theorem GitBackendInner.new_eq_ok {openBare clone : Except Git2Error Repository}
    (created : GitBackendInner.new openBare clone answers branchName = .ok inner) :
    inner.targetBranchName = branchName ∧ inner.getCurrentVersion = .ok inner.curVersion := by
  have opens : ∀ gitRepo : Repository,
      (match gitSyncLocalBranch answers
          { gitRepo, targetBranchName := branchName, curVersion := { name := [], id := .empty } } branchName with
        | (_, .error failure) => .error failure
        | (synced, .ok _) =>
            match synced.getCurrentVersion with
            | .error reason => Rust.fail reason
            | .ok curVersion => .ok { synced with curVersion }) =
        (.ok inner : Rust StorageBackendError GitBackendInner) →
      inner.targetBranchName = branchName ∧ inner.getCurrentVersion = .ok inner.curVersion := by
    intro gitRepo opened
    split at opened
    · cases opened
    · rename_i synced newest polled
      split at opened
      · cases opened
      · rename_i curVersion current
        cases opened
        refine ⟨?_, current⟩
        rcases gitSyncLocalBranch_cases polled with ⟨newVersion, -, moved⟩ | ⟨-, kept⟩
        · exact moved.targetBranchName
        · exact kept.targetBranchName
  unfold GitBackendInner.new at created
  split at created
  · cases created
  · exact opens _ created
  · exact opens _ created

end Eafcc.Storage
