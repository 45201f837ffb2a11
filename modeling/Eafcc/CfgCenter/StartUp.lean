import Eafcc.CfgCenter.Events
import Eafcc.Storage.Filesystem

namespace Eafcc.CfgCenter

open Eafcc.Model Eafcc.Storage Transition

/-! # A center that starts over the filesystem backend -/

variable {Pri : Type} {crates : Crates Pri}

inductive DebouncedEvent where
  | noticeWrite
  | noticeRemove
  | create
  | write
  | chmod
  | remove
  | rename
  | rescan
  | error
deriving Repr, DecidableEq

/-- The events on which the watcher reads the version again. -/
def DebouncedEvent.rereads : DebouncedEvent → Bool
  | .chmod | .create | .remove | .rename | .rescan | .write => true
  | .noticeWrite | .noticeRemove | .error => false

/-- How far `CFGCenter::new` has come. The thread that handles events is the last
thing that it starts. -/
inductive Construction where
  | starting
  | versionRead
  | watching
  | constructed
  | failed
deriving Repr, DecidableEq

inductive EventHandler where
  | waiting
  | calling (newVersion : VersionItem)
  | ended

/-- `head` is what reading the file gives, `changed` tells whether the poll watcher has
still to report a change of it, and `events` stand in the channel. -/
structure HeadCenter (Pri : Type) where
  head : Except IOError Bytes
  center : Option (CFGCenterInner Pri)
  construction : Construction
  changed : Bool
  events : List DebouncedEvent
  handler : EventHandler

def HeadCenter.start (head : Except IOError Bytes) : HeadCenter Pri :=
  { head, center := none, construction := .starting, changed := false, events := [], handler := .waiting }

/-- The poll watcher watches the file. -/
def Construction.watches : Construction → Bool
  | .watching | .constructed => true
  | .starting | .versionRead | .failed => false

inductive HeadAction (crates : Crates Pri) where
  | writeHead (content : Except IOError Bytes)
  | readVersion
  | watch
  | fail
  | spawn
  | report (event : DebouncedEvent)
  | receive (event : DebouncedEvent)
  | update (e : StorageChangeEvent) (answers : Answers crates)
  | updatePanics (e : StorageChangeEvent)
  | create (ns : Str) (notifyLevel : UpdateNotifyLevel) (callback : Bool) (answers : Answers crates)

/-- The steps of the construction, of the poll watcher, of the thread that handles its
events, and of others: writes of the file and creates of namespaces. -/
inductive HeadStep (crates : Crates Pri) : HeadCenter Pri → HeadAction crates → HeadCenter Pri → Prop
  | writeHead {s : HeadCenter Pri} (content : Except IOError Bytes) :
      HeadStep crates s (.writeHead content)
        { s with head := content, changed := s.changed || s.construction.watches }
  | readVersion {s : HeadCenter Pri} {version : VersionItem} :
      s.construction = .starting → readVersionFromFs s.head = .ok version →
      HeadStep crates s .readVersion { s with center := some (.new version), construction := .versionRead }
  | watch {s : HeadCenter Pri} :
      s.construction = .versionRead → HeadStep crates s .watch { s with construction := .watching }
  | fail {s : HeadCenter Pri} :
      s.construction = .starting ∨ s.construction = .versionRead →
      HeadStep crates s .fail { s with construction := .failed }
  | spawn {s : HeadCenter Pri} :
      s.construction = .watching → HeadStep crates s .spawn { s with construction := .constructed }
  -- One report may cover several changes, and a change may be reported more than once.
  | reportChange {s : HeadCenter Pri} {event : DebouncedEvent} (more : Bool) :
      s.changed = true → event.rereads = true →
      HeadStep crates s (.report event) { s with changed := more, events := s.events ++ [event] }
  | reportOther {s : HeadCenter Pri} {event : DebouncedEvent} :
      s.construction.watches = true → event.rereads = false →
      HeadStep crates s (.report event) { s with events := s.events ++ [event] }
  | receive {s : HeadCenter Pri} {event : DebouncedEvent} {events : List DebouncedEvent}
      {newVersion : VersionItem} :
      s.construction = .constructed → s.handler = .waiting → s.events = event :: events →
      event.rereads = true → readVersionFromFs s.head = .ok newVersion →
      HeadStep crates s (.receive event) { s with events, handler := .calling newVersion }
  | receiveUnreadable {s : HeadCenter Pri} {event : DebouncedEvent} {events : List DebouncedEvent}
      {reason : StorageBackendError} :
      s.construction = .constructed → s.handler = .waiting → s.events = event :: events →
      event.rereads = true → readVersionFromFs s.head = .error reason →
      HeadStep crates s (.receive event) { s with events }
  | receiveOther {s : HeadCenter Pri} {event : DebouncedEvent} {events : List DebouncedEvent} :
      s.construction = .constructed → s.handler = .waiting → s.events = event :: events →
      event.rereads = false → HeadStep crates s (.receive event) { s with events }
  | update {s : HeadCenter Pri} {center : CFGCenterInner Pri} {newVersion : VersionItem}
      {answers : Answers crates} {order : List (Str × Nat)} :
      s.handler = .calling newVersion → s.center = some center → center.Iteration order →
      HeadStep crates s (.update ⟨newVersion⟩ answers)
        { s with center := some (center.updateCallback answers order ⟨newVersion⟩), handler := .waiting }
  | updatePanics {s : HeadCenter Pri} {center : CFGCenterInner Pri} {newVersion : VersionItem}
      {answers : Answers crates} {visited rest : List (Str × Nat)} :
      s.handler = .calling newVersion → s.center = some center → center.Iteration (visited ++ rest) →
      HeadStep crates s (.updatePanics ⟨newVersion⟩)
        { s with
          center := some (visited.foldl (CFGCenterInner.updateNamespace answers ⟨newVersion⟩) center)
          handler := .ended }
  | create {s : HeadCenter Pri} {center : CFGCenterInner Pri} {ns : Str} {level : UpdateNotifyLevel}
      {callback : Bool} {answers : Answers crates} :
      s.construction = .constructed → s.center = some center → s.handler ≠ .ended →
      HeadStep crates s (.create ns level callback answers)
        { s with center := some (center.createNamespaceScopedCfgCenter answers ns level callback).1 }

namespace HeadCenter

/-- The center has the version that the file names, if it names one. -/
def Named (s : HeadCenter Pri) : Prop :=
  ∀ version, readVersionFromFs s.head = .ok version →
    ∃ center, s.center = some center ∧ center.currentVersion = version

/-- All events of the watcher have been handled. -/
def Handled (s : HeadCenter Pri) : Prop := s.changed = false ∧ s.events = [] ∧ s.handler = .waiting

def UpToDate (s : HeadCenter Pri) : Prop := s.construction = .constructed → s.Handled → s.Named

/-- A change has still to reach the thread that handles events. -/
def Pending (s : HeadCenter Pri) : Prop := s.changed = true ∨ ∃ event ∈ s.events, event.rereads = true

/-- While the file is watched, a change is pending or is being handled, or the center
has the version of the file. -/
def Current (s : HeadCenter Pri) : Prop :=
  s.construction.watches = true → ¬ s.Pending →
    match s.handler with
    | .waiting => s.Named
    | .calling newVersion => ∀ version, readVersionFromFs s.head = .ok version → version = newVersion
    | .ended => True

end HeadCenter

/-- When the watch begins, the file names the version that was read before, if any. -/
def WatchesRead (taken : Taken (HeadCenter Pri) (HeadAction crates)) : Prop :=
  taken.label = .watch → taken.before.Named

variable {s s' : HeadCenter Pri} {action : HeadAction crates}

theorem HeadCenter.Current.upToDate (current : s.Current) : s.UpToDate := by
  intro constructed handled
  obtain ⟨changed, events, handler⟩ := handled
  have idle : ¬ s.Pending := by
    simp [Pending, changed, events]
  have here := current (by rw [constructed]; rfl) idle
  rwa [handler] at here

/-- Before the watch begins, nothing is pending and the handler waits. -/
def HeadCenter.Unwatched (s : HeadCenter Pri) : Prop :=
  s.construction.watches = false → s.changed = false ∧ s.events = [] ∧ s.handler = .waiting

theorem HeadStep.unwatched (step : HeadStep crates s action s') (unwatched : s.Unwatched) :
    s'.Unwatched := by
  cases step with
  | writeHead content =>
      intro still
      obtain ⟨changed, events, handler⟩ := unwatched still
      exact ⟨by simp [changed, show s.construction.watches = false from still], events, handler⟩
  | readVersion at_ read => exact fun _ => unwatched (by rw [at_]; rfl)
  | watch at_ => exact fun still => by cases still
  | fail at_ =>
      refine fun _ => unwatched ?_
      rcases at_ with at_ | at_
      · rw [at_]
        rfl
      · rw [at_]
        rfl
  | spawn at_ => exact fun still => by cases still
  | reportChange more changed rereads =>
      intro still
      rw [(unwatched still).1] at changed
      cases changed
  | reportOther watches other =>
      intro still
      rw [show s.construction.watches = false from still] at watches
      cases watches
  | receive at_ | receiveUnreadable at_ | receiveOther at_ | create at_ =>
      intro still
      rw [show s.construction.watches = _ from congrArg _ at_] at still
      cases still
  | update at_ | updatePanics at_ =>
      intro still
      rw [(unwatched still).2.2] at at_
      cases at_

/-- An event that does not lead to a read was not what is pending. -/
theorem HeadCenter.Pending.drop {event : DebouncedEvent} {rest : List DebouncedEvent} (pending : s.Pending)
    (queued : s.events = event :: rest) (other : event.rereads = false) :
    s.changed = true ∨ ∃ event ∈ rest, event.rereads = true := by
  rcases pending with changed | ⟨found, member, rereads⟩
  · exact .inl changed
  · rw [queued] at member
    rcases List.mem_cons.mp member with rfl | member
    · rw [other] at rereads
      cases rereads
    · exact .inr ⟨found, member, rereads⟩

theorem HeadStep.current (step : HeadStep crates s action s') (unwatched : s.Unwatched)
    (current : s.Current) (watches : WatchesRead ⟨s, action, s'⟩) : s'.Current := by
  cases step with
  | writeHead content =>
      intro watched idle
      have changed : (s.changed || s.construction.watches) = true := by
        simp [show s.construction.watches = true from watched]
      exact absurd (.inl changed) idle
  | readVersion at_ read => exact fun watched => by cases watched
  | watch at_ =>
      intro _ _
      have waiting := (unwatched (by rw [at_]; rfl)).2.2
      simp only [waiting]
      exact watches rfl
  | fail at_ => exact fun watched => by cases watched
  | spawn at_ =>
      intro _ idle
      exact current (by rw [at_]; rfl) idle
  | @reportChange event more changed rereads =>
      intro _ idle
      exact absurd (.inr ⟨event, by simp, rereads⟩) idle
  | reportOther watched other =>
      intro _ idle
      refine current watched fun pending => idle ?_
      rcases pending with changed | ⟨event, member, rereads⟩
      · exact .inl changed
      · exact .inr ⟨event, by simp [member], rereads⟩
  | receive at_ waiting queued rereads read =>
      intro _ _ version same
      rw [read] at same
      cases same
      rfl
  | receiveUnreadable at_ waiting queued rereads unread =>
      intro _ _
      simp only [waiting]
      intro version read
      rw [unread] at read
      cases read
  | receiveOther at_ waiting queued other =>
      intro watched idle
      exact current watched fun pending => idle (pending.drop queued other)
  | @update center newVersion answers order calling stored iteration =>
      intro watched idle version read
      have here := current watched idle
      rw [calling] at here
      exact ⟨_, rfl, (here version read).symm⟩
  | updatePanics calling stored iteration => exact fun _ _ => trivial
  | @create center ns level callback answers at_ stored healthy =>
      intro watched idle
      have here := current watched idle
      have kept : ∀ version, (∃ center, s.center = some center ∧ center.currentVersion = version) →
          (center.createNamespaceScopedCfgCenter answers ns level callback).1.currentVersion = version := by
        intro version named
        obtain ⟨center', stored', rfl⟩ := named
        rw [stored] at stored'
        cases stored'
        exact create_currentVersion
      cases handling : s.handler with
      | waiting =>
          simp only [handling] at here ⊢
          exact fun version read => ⟨_, rfl, kept version (here version read)⟩
      | calling newVersion =>
          simp only [handling] at here ⊢
          exact here
      | ended => trivial

/-! ## Runs -/

theorem HeadCenter.start_unwatched (head : Except IOError Bytes) :
    (HeadCenter.start head : HeadCenter Pri).Unwatched := fun _ => ⟨rfl, rfl, rfl⟩

theorem HeadCenter.start_current (head : Except IOError Bytes) :
    (HeadCenter.start head : HeadCenter Pri).Current := fun watched => by cases watched

/-- The file stays watched, and the watch begins only once. -/
theorem HeadStep.watches (step : HeadStep crates s action s') (watched : s.construction.watches = true) :
    s'.construction.watches = true ∧ action ≠ .watch := by
  cases step with
  | readVersion at_ read | watch at_ =>
      rw [at_] at watched
      cases watched
  | fail at_ =>
      rcases at_ with at_ | at_
      · rw [at_] at watched
        cases watched
      · rw [at_] at watched
        cases watched
  | spawn at_ => exact ⟨rfl, by simp⟩
  | _ => exact ⟨watched, by simp⟩

/-- Once the watch has begun with the version that was read, no update is lost. -/
theorem upToDate_of_watched {next final : HeadCenter Pri}
    {more : List (Taken (HeadCenter Pri) (HeadAction crates))} (run : Run (HeadStep crates) next more final)
    (watched : next.construction.watches = true) (current : next.Current) : final.UpToDate := by
  have keeps : ∀ s (action : HeadAction crates) s',
      (s.construction.watches = true ∧ s.Unwatched ∧ s.Current) → HeadStep crates s action s' →
      s'.construction.watches = true ∧ s'.Unwatched ∧ s'.Current := by
    intro s action s' inv step
    obtain ⟨watched, unwatched, current⟩ := inv
    obtain ⟨still, other⟩ := step.watches watched
    exact ⟨still, step.unwatched unwatched, step.current unwatched current fun begins => absurd begins other⟩
  have whole := run.invariant
    ⟨watched, fun still => (by rw [watched] at still; cases still), current⟩ keeps
  exact whole.2.2.upToDate

/-- No update is lost in a run in which the file still names the version that was read
when the watch begins, and where it names another one, the run can go on to a state in
which the center has an old version and nothing is pending. -/
theorem startUp_upToDate (crates : Crates Pri) (head : Except IOError Bytes)
    (steps : List (Taken (HeadCenter Pri) (HeadAction crates))) (state : HeadCenter Pri)
    (run : Run (HeadStep crates) (.start head) steps state) :
    ((∀ taken ∈ steps, WatchesRead taken) → state.UpToDate) ∧
    ∀ next, HeadStep crates state .watch next →
      ((∀ more final, Run (HeadStep crates) next more final → final.UpToDate) ↔
        WatchesRead (⟨state, .watch, next⟩ : Taken (HeadCenter Pri) (HeadAction crates))) := by
  have keeps : ∀ s (action : HeadAction crates) s', s.Unwatched → HeadStep crates s action s' →
      s'.Unwatched := fun _ _ _ unwatched step => step.unwatched unwatched
  have unwatched := run.invariant (HeadCenter.start_unwatched head) keeps
  constructor
  · intro watches
    have whole := Run.forall_of (P := fun _ => True) (fun s : HeadCenter Pri => s.Unwatched ∧ s.Current) run
      watches ⟨HeadCenter.start_unwatched head, HeadCenter.start_current head⟩
      (fun _ _ _ inv step here => ⟨step.unwatched inv.1, step.current inv.1 inv.2 here⟩)
      fun _ _ _ _ _ _ => trivial
    exact whole.1.2.upToDate
  · intro next begins
    constructor
    · intro lossless _
      cases begins with
      | watch at_ =>
          obtain ⟨changed, events, handler⟩ := unwatched (by rw [at_]; rfl)
          have constructed := lossless _ { state with construction := .constructed }
            (Run.nil.snoc (.spawn rfl)) rfl ⟨changed, events, handler⟩
          exact constructed
    · intro watches more final onward
      have current : next.Current := by
        cases begins with
        | watch at_ =>
            have before : state.Current := fun watched => by
              rw [at_] at watched
              cases watched
            exact HeadStep.current (.watch at_) unwatched before watches
      have watched : next.construction.watches = true := by
        cases begins
        rfl
      exact upToDate_of_watched onward watched current

/-! ### A write between the two readings -/

section Sample

def sampleHead (name : Char) : Except IOError Bytes := .ok (toUtf8 [name])

theorem sampleHead_read (name : Char) (visible : isWhitespace name = false) :
    readVersionFromFs (sampleHead name) = .ok { name := [name], id := toUtf8 [name] } := by
  simp [readVersionFromFs, sampleHead, fromUtf8_toUtf8, trim, visible]

/-- A center that has read version `v`, while the file names the given one. -/
def sampleStarted (construction : Construction) (name : Char) : HeadCenter Nat where
  head := sampleHead name
  center := some (.new sampleVersion)
  construction
  changed := false
  events := []
  handler := .waiting

theorem sampleStarted_read : ∃ steps, Run (HeadStep sampleCrates) (.start (sampleHead 'v')) steps
    (sampleStarted .versionRead 'v') ∧ ∀ taken ∈ steps, taken.label ≠ .watch :=
  ⟨_, Run.nil.snoc (.readVersion rfl (sampleHead_read 'v' rfl)), by simp⟩

theorem sampleStarted_named : (sampleStarted .versionRead 'v').Named := by
  intro version read
  rw [show (sampleStarted .versionRead 'v').head = sampleHead 'v' from rfl, sampleHead_read 'v' rfl] at read
  cases read
  exact ⟨_, rfl, rfl⟩

/-- The center of the sample after an event. -/
def sampleFollowed (name : Char) : CFGCenterInner Nat :=
  (CFGCenterInner.new sampleVersion).updateCallback
    (.withoutFiles sampleCrates (fun _ _ _ => .ok []) fun _ _ => false) [] ⟨{ name := [name], id := toUtf8 [name] }⟩

/-- The file is written after it is watched, and before the center is constructed. -/
theorem startUp_upToDate_sample : ∃ steps, Run (HeadStep sampleCrates) (.start (sampleHead 'v')) steps
    { sampleStarted .constructed 'w' with center := some (sampleFollowed 'w') } ∧
    (∃ taken ∈ steps, taken.label = .writeHead (sampleHead 'w')) ∧
    ({ sampleStarted .constructed 'w' with center := some (sampleFollowed 'w') } : HeadCenter Nat).UpToDate := by
  obtain ⟨steps, run, early⟩ := sampleStarted_read
  have watched := run.snoc (.watch rfl)
  have spawned := (watched.snoc (.writeHead (sampleHead 'w'))).snoc (.spawn rfl)
  have rereads : DebouncedEvent.write.rereads = true := rfl
  have received := (spawned.snoc (.reportChange false rfl rereads)).snoc
    (.receive rfl rfl rfl rfl (sampleHead_read 'w' rfl))
  have order : (CFGCenterInner.new sampleVersion : CFGCenterInner Nat).Iteration [] :=
    ⟨List.nodup_nil, fun ns id => by simp [CFGCenterInner.new]⟩
  have updated := received.snoc (show HeadStep sampleCrates _ (.update _ _)
    { sampleStarted .constructed 'w' with center := some (sampleFollowed 'w') } from .update rfl rfl order)
  refine ⟨_, updated, ?_, (startUp_upToDate sampleCrates (sampleHead 'v') _ _ updated).1 ?_⟩
  · simp [or_and_right, exists_or]
  · intro taken member
    simp only [List.mem_append, List.mem_singleton, or_assoc] at member
    rcases member with member | rfl | rfl | rfl | rfl | rfl | rfl
    · exact fun begins => absurd begins (early taken member)
    · exact fun _ => sampleStarted_named
    · exact fun begins => by cases begins
    · exact fun begins => by cases begins
    · exact fun begins => by cases begins
    · exact fun begins => by cases begins
    · exact fun begins => by cases begins

/-- The file is written after it was read and before it is watched. -/
theorem startUp_misses_write : ∃ steps, Run (HeadStep sampleCrates) (.start (sampleHead 'v')) steps
    (sampleStarted .constructed 'w') ∧ ¬ (sampleStarted .constructed 'w').UpToDate := by
  obtain ⟨steps, run, -⟩ := sampleStarted_read
  have written := run.snoc (.writeHead (sampleHead 'w'))
  have constructed := (written.snoc (.watch rfl)).snoc (.spawn rfl)
  refine ⟨_, constructed, fun upToDate => ?_⟩
  obtain ⟨center, stored, same⟩ := upToDate rfl ⟨rfl, rfl, rfl⟩ _ (sampleHead_read 'w' rfl)
  cases stored
  cases congrArg VersionItem.name same

end Sample

end Eafcc.CfgCenter
