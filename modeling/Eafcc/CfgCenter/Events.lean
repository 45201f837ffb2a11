import Eafcc.CfgCenter.Sequential

namespace Eafcc.CfgCenter

open Eafcc.Model Eafcc.Storage Transition

/-! # What an event does to each handle -/

variable {Pri : Type} {crates : Crates Pri} {center : CFGCenterInner Pri} {answers : Answers crates}
  {e : StorageChangeEvent} {order : List (Str × Nat)} {ns : Str} {id : Nat}
  {handle : NamespaceScopedCFGCenter Pri}

/-- A handle after an event that reaches it. -/
def NamespaceScopedCFGCenter.onEvent (handle : NamespaceScopedCFGCenter Pri) (answers : Answers crates)
    (oldVersion : VersionItem) (e : StorageChangeEvent) : NamespaceScopedCFGCenter Pri :=
  match CFGCenterInner.loadChanged answers handle.notifyLevel oldVersion e.newVersion
      handle.namespaceName with
  | none => handle
  | some (newMemStore, changes) => handle.updateCallback newMemStore changes

@[simp]
theorem NamespaceScopedCFGCenter.onEvent_notifyLevel (oldVersion : VersionItem) :
    (handle.onEvent answers oldVersion e).notifyLevel = handle.notifyLevel := by
  unfold onEvent
  split <;> simp

@[simp]
theorem NamespaceScopedCFGCenter.onEvent_namespaceName (oldVersion : VersionItem) :
    (handle.onEvent answers oldVersion e).namespaceName = handle.namespaceName := by
  unfold onEvent
  split <;> simp

@[simp]
theorem NamespaceScopedCFGCenter.onEvent_callback (oldVersion : VersionItem) :
    (handle.onEvent answers oldVersion e).callback = handle.callback := by
  unfold onEvent
  split <;> simp

theorem onEvent_global {oldVersion : VersionItem} {memStore : MemStorage Pri} (level : handle.notifyLevel = .notifyWithoutChangedKeysByGlobal)
    (loaded : answers.memStorageNew handle.namespaceName e.newVersion = .ok memStore) :
    handle.onEvent answers oldVersion e = handle.updateCallback memStore [] := by
  simp [NamespaceScopedCFGCenter.onEvent, CFGCenterInner.loadChanged, level, loaded]

@[simp]
theorem updateNamespace_currentVersion (entry : Str × Nat) :
    (center.updateNamespace answers e entry).currentVersion = center.currentVersion := by
  unfold CFGCenterInner.updateNamespace
  split
  · rfl
  · split <;> rfl

theorem updateNamespace_handles {other : Nat} (found : center.namespaces.lookup ns = some other) :
    (center.updateNamespace answers e (ns, other)).handles[id]? =
      (center.handles[id]?).map fun handle =>
        if id = other then handle.onEvent answers center.currentVersion e else handle := by
  obtain ⟨stored, at_, named⟩ := center.filed ns other found
  unfold CFGCenterInner.updateNamespace
  simp only [at_, ← named]
  by_cases same : id = other
  · subst same
    cases loaded : CFGCenterInner.loadChanged answers stored.notifyLevel center.currentVersion
        e.newVersion stored.namespaceName with
    | none => simp [at_, NamespaceScopedCFGCenter.onEvent, loaded]
    | some result => simp [at_, NamespaceScopedCFGCenter.onEvent, loaded, CFGCenterInner.install]
  · cases loaded : CFGCenterInner.loadChanged answers stored.notifyLevel center.currentVersion
        e.newVersion stored.namespaceName with
    | none => simp [same]
    | some result => simp [same, CFGCenterInner.install, Ne.symm same]

/-- The loop updates each handle that it comes to once, and no other. -/
theorem updateLoop_handles (rest : List (Str × Nat)) (center : CFGCenterInner Pri)
    (distinct : (rest.map Prod.fst).Nodup)
    (listed : ∀ entry ∈ rest, center.namespaces.lookup entry.1 = some entry.2) :
    (rest.foldl (CFGCenterInner.updateNamespace answers e) center).handles[id]? =
      (center.handles[id]?).map fun handle =>
        if id ∈ rest.map Prod.snd then handle.onEvent answers center.currentVersion e else handle := by
  induction rest generalizing center with
  | nil => simp
  | cons entry rest ih =>
      obtain ⟨other, otherId⟩ := entry
      obtain ⟨fresh, distinct⟩ := List.nodup_cons.mp distinct
      have found := listed (other, otherId) (by simp)
      have later := ih (center.updateNamespace answers e (other, otherId)) distinct fun entry member => by
        rw [updateNamespace_namespaces]
        exact listed entry (by simp [member])
      rw [List.foldl_cons, later, updateNamespace_handles found, updateNamespace_currentVersion]
      have once : id = otherId → id ∉ rest.map Prod.snd := by
        rintro rfl again
        obtain ⟨entry, member, same⟩ := List.mem_map.mp again
        have found' := listed entry (by simp [member])
        rw [same] at found'
        exact fresh (List.mem_map.mpr ⟨entry, member, center.filed_unique found' found⟩)
      cases center.handles[id]? with
      | none => rfl
      | some handle =>
          simp only [Option.map_some]
          by_cases same : id = otherId
          · have head : id ∈ ((other, otherId) :: rest).map Prod.snd := by simp [same]
            rw [if_neg (once same), if_pos same, if_pos head]
          · have tail : id ∈ ((other, otherId) :: rest).map Prod.snd ↔ id ∈ rest.map Prod.snd := by
              simp [same]
            rw [if_neg same]
            simp only [tail]

theorem updateLoop_rest (rest : List (Str × Nat)) (center : CFGCenterInner Pri) :
    (rest.foldl (CFGCenterInner.updateNamespace answers e) center).namespaces = center.namespaces ∧
    (rest.foldl (CFGCenterInner.updateNamespace answers e) center).currentVersion =
      center.currentVersion := by
  induction rest generalizing center with
  | nil => exact ⟨rfl, rfl⟩
  | cons entry rest ih =>
      obtain ⟨namespaces, currentVersion⟩ := ih (center.updateNamespace answers e entry)
      rw [updateNamespace_namespaces] at namespaces
      rw [updateNamespace_currentVersion] at currentVersion
      exact ⟨namespaces, currentVersion⟩

theorem updateCallback_listed (answers : Answers crates) (e : StorageChangeEvent)
    (iteration : center.Iteration order)
    (found : center.namespaces.lookup ns = some id) (stored : center.handles[id]? = some handle) :
    (center.updateCallback answers order e).handles[id]? =
      some (handle.onEvent answers center.currentVersion e) := by
  have member : id ∈ order.map Prod.snd := List.mem_map.mpr ⟨(ns, id), (iteration.2 ns id).mpr found, rfl⟩
  have looped : (order.foldl (CFGCenterInner.updateNamespace answers e) center).handles[id]? = _ :=
    updateLoop_handles order center iteration.1 fun entry => (iteration.2 entry.1 entry.2).mp
  rw [stored, Option.map_some, if_pos member] at looped
  exact looped

theorem updateCallback_unlisted (answers : Answers crates) (e : StorageChangeEvent)
    (iteration : center.Iteration order)
    (absent : ∀ ns, center.namespaces.lookup ns ≠ some id) :
    (center.updateCallback answers order e).handles[id]? = center.handles[id]? := by
  have unlisted : id ∉ order.map Prod.snd := by
    intro member
    obtain ⟨entry, listed, same⟩ := List.mem_map.mp member
    exact absent entry.1 (same ▸ (iteration.2 entry.1 entry.2).mp listed)
  have looped : (order.foldl (CFGCenterInner.updateNamespace answers e) center).handles[id]? = _ :=
    updateLoop_handles order center iteration.1 fun entry => (iteration.2 entry.1 entry.2).mp
  simp only [if_neg unlisted, Option.map_id'] at looped
  exact looped

@[simp]
theorem updateCallback_currentVersion (order : List (Str × Nat)) :
    (center.updateCallback answers order e).currentVersion = e.newVersion := rfl

theorem updateCallback_namespaces (order : List (Str × Nat)) :
    (center.updateCallback answers order e).namespaces = center.namespaces :=
  (updateLoop_rest order center).1

/-! ## Runs of creates and events -/

inductive Operation (crates : Crates Pri) where
  | create (ns : Str) (notifyLevel : UpdateNotifyLevel) (callback : Bool) (answers : Answers crates)
  | event (e : StorageChangeEvent) (answers : Answers crates)

/-- A center performs one operation after the other. -/
inductive Performs : CFGCenterInner Pri → Operation crates → CFGCenterInner Pri → Prop
  | create {center : CFGCenterInner Pri} {ns : Str} {level : UpdateNotifyLevel} {callback : Bool}
      {answers : Answers crates} :
      Performs center (.create ns level callback answers)
        (center.createNamespaceScopedCfgCenter answers ns level callback).1
  | event {center : CFGCenterInner Pri} {e : StorageChangeEvent} {answers : Answers crates}
      {order : List (Str × Nat)} :
      center.Iteration order → Performs center (.event e answers) (center.updateCallback answers order e)

abbrev Operations (crates : Crates Pri) := List (Taken (CFGCenterInner Pri) (Operation crates))

def Operation.isEvent : Operation crates → Bool
  | .create .. => false
  | .event .. => true

theorem create_eq_ok {level : UpdateNotifyLevel} {callback : Bool}
    (created : (center.createNamespaceScopedCfgCenter answers ns level callback).2 = .ok id) :
    CFGCenterInner.validNamespace ns = true ∧ id = center.handles.length ∧
      ∃ memStore, answers.memStorageNew ns center.currentVersion = .ok memStore ∧
        (center.createNamespaceScopedCfgCenter answers ns level callback).1 =
          center.insert (.new ns memStore level callback) := by
  unfold CFGCenterInner.createNamespaceScopedCfgCenter at created ⊢
  cases valid : CFGCenterInner.validNamespace ns with
  | false => simp [valid] at created
  | true =>
      cases loaded : answers.memStorageNew ns center.currentVersion with
      | error reason => simp [valid, loaded] at created
      | ok memStore =>
          simp only [valid, loaded, Bool.not_true, Bool.false_eq_true, if_false, Except.ok.injEq] at created
          exact ⟨rfl, created.symm, memStore, rfl, by simp⟩

/-- A create call leaves the handles given out before it as they are. -/
theorem create_handles {other : Str} {level : UpdateNotifyLevel} {callback : Bool}
    (stored : center.handles[id]? = some handle) :
    (center.createNamespaceScopedCfgCenter answers other level callback).1.handles[id]? =
      some handle := by
  have bound := (List.getElem?_eq_some_iff.mp stored).1
  unfold CFGCenterInner.createNamespaceScopedCfgCenter
  split
  · exact stored
  · split
    · exact stored
    · exact (List.getElem?_append_left bound).trans stored

theorem create_lookup {other : Str} {level : UpdateNotifyLevel} {callback : Bool} (differ : ns ≠ other) :
    (center.createNamespaceScopedCfgCenter answers other level callback).1.namespaces.lookup ns =
      center.namespaces.lookup ns := by
  unfold CFGCenterInner.createNamespaceScopedCfgCenter
  split
  · rfl
  · split
    · rfl
    · exact Finmap.lookup_insert_of_ne _ differ

theorem create_lookup_self {level : UpdateNotifyLevel} {callback : Bool} {memStore : MemStorage Pri}
    (valid : CFGCenterInner.validNamespace ns = true)
    (loaded : answers.memStorageNew ns center.currentVersion = .ok memStore) :
    (center.createNamespaceScopedCfgCenter answers ns level callback).1.namespaces.lookup ns =
      some center.handles.length := by
  simp only [CFGCenterInner.createNamespaceScopedCfgCenter, valid, loaded, Bool.not_true,
    Bool.false_eq_true, if_false]
  exact Finmap.lookup_insert _

/-! ## The handle that the map refers to -/

/-- The handle that `get_namespace_scoped_cfg_center` gives for a namespace. -/
def CFGCenterInner.serving (center : CFGCenterInner Pri) (ns : Str) :
    Option (NamespaceScopedCFGCenter Pri) :=
  (center.namespaces.lookup ns).bind fun id => center.handles[id]?

theorem serving_eq_some : center.serving ns = some handle ↔
    ∃ id, center.namespaces.lookup ns = some id ∧ center.handles[id]? = some handle :=
  Option.bind_eq_some_iff

@[simp]
theorem serving_new (version : VersionItem) (ns : Str) :
    (CFGCenterInner.new version : CFGCenterInner Pri).serving ns = none := rfl

theorem serving_namespaceName (serving : center.serving ns = some handle) :
    handle.namespaceName = ns := by
  obtain ⟨id, found, stored⟩ := serving_eq_some.mp serving
  obtain ⟨handle', stored', named⟩ := center.filed ns id found
  rw [stored, Option.some.injEq] at stored'
  rw [stored', named]

theorem updateCallback_serving (answers : Answers crates) (e : StorageChangeEvent)
    (iteration : center.Iteration order) (ns : Str) :
    (center.updateCallback answers order e).serving ns =
      (center.serving ns).map fun handle => handle.onEvent answers center.currentVersion e := by
  unfold CFGCenterInner.serving
  rw [updateCallback_namespaces]
  cases found : center.namespaces.lookup ns with
  | none => rfl
  | some id =>
      obtain ⟨handle, stored, -⟩ := center.filed ns id found
      simp only [Option.bind_some, stored, Option.map_some]
      exact updateCallback_listed answers e iteration found stored

theorem create_serving {other : Str} {level : UpdateNotifyLevel} {callback : Bool} (differ : ns ≠ other) :
    (center.createNamespaceScopedCfgCenter answers other level callback).1.serving ns =
      center.serving ns := by
  unfold CFGCenterInner.serving
  rw [create_lookup differ]
  cases found : center.namespaces.lookup ns with
  | none => rfl
  | some id =>
      obtain ⟨handle, stored, -⟩ := center.filed ns id found
      simp only [Option.bind_some, stored]
      exact create_handles stored

theorem create_serving_self {level : UpdateNotifyLevel} {callback : Bool} {memStore : MemStorage Pri}
    (valid : CFGCenterInner.validNamespace ns = true)
    (loaded : answers.memStorageNew ns center.currentVersion = .ok memStore) :
    (center.createNamespaceScopedCfgCenter answers ns level callback).1.serving ns =
      some (.new ns memStore level callback) := by
  unfold CFGCenterInner.serving
  rw [create_lookup_self valid loaded]
  simp [CFGCenterInner.createNamespaceScopedCfgCenter, valid, loaded, CFGCenterInner.insert]

/-- A create call that fails changes nothing. -/
theorem create_error {level : UpdateNotifyLevel} {callback : Bool}
    (fails : CFGCenterInner.validNamespace ns = true →
      ∃ reason, answers.memStorageNew ns center.currentVersion = .error reason) :
    (center.createNamespaceScopedCfgCenter answers ns level callback).1 = center := by
  unfold CFGCenterInner.createNamespaceScopedCfgCenter
  cases valid : CFGCenterInner.validNamespace ns with
  | false => rfl
  | true =>
      obtain ⟨reason, failed⟩ := fails valid
      simp [failed]

theorem create_currentVersion {level : UpdateNotifyLevel} {callback : Bool} :
    (center.createNamespaceScopedCfgCenter answers ns level callback).1.currentVersion =
      center.currentVersion := by
  unfold CFGCenterInner.createNamespaceScopedCfgCenter
  split
  · rfl
  · split <;> rfl

abbrev SamplePerforms : CFGCenterInner Nat → Operation sampleCrates → CFGCenterInner Nat → Prop :=
  Performs

end Eafcc.CfgCenter
