import Eafcc.CfgCenter.UpdateHistory
import Eafcc.Storage.Git

/-! # The backends that come with the library

Neither of them compares versions.  A handle at a level that asks for changed files
stays as it was created.
-/

namespace Eafcc.Storage

def FilesystemBackend.getDiffList (_backend : FilesystemBackend) (_oldVersion _newVersion : VersionItem)
    (_ns : Str) : Except StorageBackendError (List Str) := .ok []

def GitBackend.getDiffList (_backend : GitBackend) (_oldVersion _newVersion : VersionItem) (_ns : Str) :
    Except StorageBackendError (List Str) := .ok []

end Eafcc.Storage

namespace Eafcc.CfgCenter

open Eafcc.Model Eafcc.Storage Transition

variable {Pri : Type} {crates : Crates Pri}

/-- The lists of changed files are those of one of the two backends. -/
def Answers.Shipped (answers : Answers crates) : Prop :=
  (∃ backend : FilesystemBackend, answers.getDiffList = backend.getDiffList) ∨
    ∃ backend : GitBackend, answers.getDiffList = backend.getDiffList

def Action.Shipped : Action crates → Prop
  | .load _ _ _ answers => answers.Shipped
  | _ => True

/-- The handle is the one that a create call has filed, and it serves what that call has
loaded. -/
def Created (version : VersionItem) (steps : Steps crates) (id : Nat) (handle : NamespaceScopedCFGCenter Pri) : Prop :=
  ∃ t before load window insertion after, steps = before ++ load :: window ++ insertion :: after ∧
    Creation version t handle.namespaceName before load window handle.currentMemstore ∧
    insertion.label = (t, .insert handle.namespaceName id)

def Thread.installing : Thread Pri → Option Nat
  | .updateInstall _ entry _ _ _ => some entry.2
  | _ => none

section Steps

variable {center center' : CFGCenterInner Pri} {thread next : Thread Pri} {action : Action crates}
  {s s' : State Pri} {handle : NamespaceScopedCFGCenter Pri} {id : Nat} {steps : Steps crates}
  {version : VersionItem}

theorem Created.more {taken : Taken (State Pri) (Nat × Action crates)} (created : Created version steps id handle) :
    Created version (steps ++ [taken]) id handle := by
  obtain ⟨t, before, load, window, insertion, after, rfl, creation, label⟩ := created
  exact ⟨t, before, load, window, insertion, after ++ [taken], List.append_assoc _ _ _, creation, label⟩

/-- A handle that a thread inserts is created in that step. -/
theorem Chronicle.created (chronicle : Chronicle version steps s) {t : Nat}
    (inserts : s.threads t = .createInsert handle) {label : Nat × Action crates}
    (same : label = (t, .insert handle.namespaceName id)) (next : State Pri) :
    handle.called = [] ∧ Created version (steps ++ [⟨s, label, next⟩]) id handle := by
  obtain ⟨before, load, window, created, level, callback, rfl, creation, made⟩ :=
    chronicle.creating t handle (.inr inserts)
  have serves : handle.currentMemstore = created := by rw [made]; rfl
  rw [← serves] at creation
  exact ⟨by rw [made]; rfl, t, before, load, window, _, [], rfl, creation, same⟩

/-- Only the global level has something to install. -/
theorem loadChanged_shipped {answers : Answers crates} {level : UpdateNotifyLevel}
    {oldVersion newVersion : VersionItem} {ns : Str} {result : MemStorage Pri × List Str}
    (shipped : answers.Shipped)
    (loads : CFGCenterInner.loadChanged answers level oldVersion newVersion ns = some result) :
    level = .notifyWithoutChangedKeysByGlobal := by
  have nothing : answers.getDiffList oldVersion newVersion ns = .ok [] := by
    rcases shipped with ⟨backend, same⟩ | ⟨backend, same⟩ <;> rw [same] <;> rfl
  cases level with
  | notifyWithoutChangedKeysByGlobal => rfl
  | noNotify => cases loads
  | notifyWithoutChangedKeysInNamespace => simp [CFGCenterInner.loadChanged, nothing] at loads
  | notifyWithMaybeChangedKeys => simp [CFGCenterInner.loadChanged, nothing] at loads

theorem Moves.installing (moves : Moves crates center thread action next center') (shipped : action.Shipped)
    (installs : next.installing = some id) : ∃ handle, center.handles[id]? = some handle ∧
      handle.notifyLevel = .notifyWithoutChangedKeysByGlobal := by
  cases moves with
  | updateLoad stored loads =>
      cases installs
      exact ⟨_, stored, loadChanged_shipped shipped loads⟩
  | _ => cases installs

/-- A handle after a step is that before it, one that the step inserts, or one that it
installs a snapshot in. -/
theorem Moves.handle_cases (moves : Moves crates center thread action next center')
    (stored : center'.handles[id]? = some handle) : center.handles[id]? = some handle ∨
      thread = .createInsert handle ∧ action = .insert handle.namespaceName id ∨ thread.installing = some id := by
  cases moves with
  | @createInsert made =>
      rcases Nat.lt_trichotomy id center.handles.length with earlier | rfl | later
      · rw [CFGCenterInner.insert, List.getElem?_append_left earlier] at stored
        exact .inl stored
      · obtain rfl : made = handle := by simpa [CFGCenterInner.insert] using stored
        exact .inr (.inl ⟨rfl, rfl⟩)
      · have bound := (List.getElem?_eq_some_iff.mp stored).1
        simp only [CFGCenterInner.insert, List.length_append, List.length_singleton] at bound
        omega
  | @updateInstall e ns other rest newMemStore changes =>
      by_cases same : other = id
      · exact .inr (.inr (by rw [← same]; rfl))
      · exact .inl (by simpa [CFGCenterInner.install, List.getElem?_modify, same] using stored)
  | _ => exact .inl stored

/-- A handle keeps its place and its level. -/
theorem Moves.keeps_handle (moves : Moves crates center thread action next center')
    (stored : center.handles[id]? = some handle) : ∃ handle', center'.handles[id]? = some handle' ∧
      handle'.notifyLevel = handle.notifyLevel := by
  have kept : ∃ handle', center'.handles[id]? = some handle' := by
    cases moves with
    | createInsert =>
        have bound := (List.getElem?_eq_some_iff.mp stored).1
        exact ⟨handle, (List.getElem?_append_left bound).trans stored⟩
    | updateInstall => simp [CFGCenterInner.install, List.getElem?_modify, stored]
    | _ => exact ⟨handle, stored⟩
  obtain ⟨handle', stored'⟩ := kept
  exact ⟨handle', stored', moves.notifyLevel stored stored'⟩

/-- What holds in every state while the calls go to the two backends. -/
structure State.Settled (version : VersionItem) (steps : Steps crates) (s : State Pri) : Prop where
  chronicle : Chronicle version steps s
  valid : s.Valid crates
  installing : ∀ t id, (s.threads t).installing = some id → ∃ handle, s.center.handles[id]? = some handle ∧
    handle.notifyLevel = .notifyWithoutChangedKeysByGlobal
  stored : ∀ (id : Nat) (handle : NamespaceScopedCFGCenter Pri), s.center.handles[id]? = some handle →
    handle.notifyLevel ≠ .notifyWithoutChangedKeysByGlobal → handle.called = [] ∧ Created version steps id handle

theorem State.Settled.start (crates : Crates Pri) (version : VersionItem) :
    State.Settled version ([] : Steps crates) (.start version) where
  chronicle := .start crates version
  valid := State.start_valid crates version
  installing _ _ installs := by cases installs
  stored _ _ stored := by cases stored

theorem State.Settled.step {label : Nat × Action crates} (settled : s.Settled version steps)
    (taken : Step crates s label s') (shipped : label.2.Shipped) :
    s'.Settled version (steps ++ [⟨s, label, s'⟩]) := by
  refine ⟨settled.chronicle.step settled.valid taken, taken.valid settled.valid, ?_, ?_⟩
  · cases taken with
    | @run t action next center moves permitted =>
        intro u id installs
        have before : ∃ handle, s.center.handles[id]? = some handle ∧
            handle.notifyLevel = .notifyWithoutChangedKeysByGlobal := by
          by_cases own : u = t
          · subst own
            simp only [Function.update_self] at installs
            exact moves.installing shipped installs
          · simp only [Function.update_of_ne own] at installs
            exact settled.installing u id installs
        obtain ⟨handle, stored, level⟩ := before
        obtain ⟨handle', stored', same⟩ := moves.keeps_handle stored
        exact ⟨handle', stored', same.trans level⟩
  · cases taken with
    | @run t action next center moves permitted =>
        intro id handle stored level
        rcases moves.handle_cases stored with before | ⟨inserts, inserted⟩ | installs
        · obtain ⟨fresh, created⟩ := settled.stored id handle before level
          exact ⟨fresh, created.more⟩
        · exact settled.chronicle.created inserts (by rw [inserted]) _
        · obtain ⟨earlier, before, global⟩ := settled.installing t id installs
          exact absurd ((moves.notifyLevel before stored).trans global) level

end Steps

/-- With the backends that come with the library a handle at any level but the global one
serves, in every interleaving, what its own create call has loaded, and its callback is
never called. -/
theorem shipped_never_updates (crates : Crates Pri) (version : VersionItem) (steps : Steps crates)
    (s : State Pri) (run : Run (Step crates) (.start version) steps s)
    (shipped : ∀ taken ∈ steps, taken.label.2.Shipped) (id : Nat) (handle : NamespaceScopedCFGCenter Pri)
    (stored : s.center.handles[id]? = some handle)
    (level : handle.notifyLevel ≠ .notifyWithoutChangedKeysByGlobal) :
    handle.called = [] ∧ ∃ t before load window insertion after,
      steps = before ++ load :: window ++ insertion :: after ∧
      Creation version t handle.namespaceName before load window handle.currentMemstore ∧
      insertion.label = (t, .insert handle.namespaceName id) := by
  have settled : s.Settled version steps ∧ (Each (fun _ _ => True) steps ↔ Each (fun _ _ => True) steps) :=
    run.each_iff shipped (.start crates version) (fun _ _ _ _ settled step shipped => settled.step step shipped)
      fun _ _ _ _ _ _ _ => Iff.rfl
  exact settled.1.stored id handle stored level

/-! ### An update that skips its only namespace -/

def sampleAsking : CFGCenterInner Nat :=
  ((CFGCenterInner.new sampleVersion).createNamespaceScopedCfgCenter sampleAnswers ['/']
    .notifyWithoutChangedKeysInNamespace true).1

theorem sampleAnswers_shipped : sampleAnswers.Shipped := .inl ⟨⟨[]⟩, rfl⟩

theorem sample_skips : Moves sampleCrates sampleAsking (.updateLoop sampleEvent [(['/'], 0)])
    (.load ['/'] 0 sampleEvent sampleAnswers) (.updateLoop sampleEvent []) sampleAsking :=
  .updateSkip rfl rfl

theorem sample_ships : GoesBy (Action.Shipped : Action sampleCrates → Prop) (.start sampleVersion) 0 .idle
    (holders none none) (.new sampleVersion) .idle (holders none none)
    (sampleAsking.setVersion sampleEvent.newVersion) := by
  have created : GoesBy (Action.Shipped : Action sampleCrates → Prop) (.start sampleVersion) 0 .idle
      (holders none none) (.new sampleVersion) .idle (holders none none) sampleAsking := by
    have loaded : sampleAnswers.memStorageNew ['/'] sampleVersion =
      .ok { version := sampleVersion, indices := .empty } := rfl
    exact create_goesBy rfl loaded (fun _ => trivial) (fun _ => trivial) (fun _ => trivial)
      (fun _ _ => trivial) trivial .notifyWithoutChangedKeysInNamespace true
  have entered := ((created.step (.callUpdate (e := sampleEvent)) trivial rfl trivial).step .update rfl
    (acquire_namespaces _ _) trivial).step (.updateLock (iteration_single rfl)) rfl (acquire_currentVersion _ _) trivial
  have skipped := entered.step sample_skips trivial rfl sampleAnswers_shipped
  exact ((skipped.step .updateEnd trivial rfl trivial).step .updateUnlock trivial
    (release_currentVersion _ _) trivial).step .updateReturn trivial (release_namespaces _ _) trivial

theorem shipped_never_updates_sample : ∃ steps s handle,
    Run (Step sampleCrates) (.start sampleVersion) steps s ∧ s.center.handles[0]? = some handle ∧
    s.center.currentVersion ≠ handle.currentMemstore.version ∧ handle.called = [] ∧
    ∃ t before load window insertion after, steps = before ++ load :: window ++ insertion :: after ∧
      Creation sampleVersion t ['/'] before load window handle.currentMemstore ∧
      insertion.label = (t, .insert ['/'] 0) := by
  obtain ⟨steps, run, shipped⟩ := sample_ships
  rw [State.start_alone] at run
  have stored : (sampleAsking.setVersion sampleEvent.newVersion).handles[0]? =
      some (.new ['/'] { version := sampleVersion, indices := .empty } .notifyWithoutChangedKeysInNamespace true) := rfl
  refine ⟨steps, _, _, run, stored, ?_, ?_⟩
  · change sampleEvent.newVersion ≠ sampleVersion
    decide
  · exact shipped_never_updates sampleCrates sampleVersion steps _ run shipped 0 _ stored (by decide)

end Eafcc.CfgCenter
