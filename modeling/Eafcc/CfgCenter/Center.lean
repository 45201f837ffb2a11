import Eafcc.CfgCenter.Namespace

namespace Eafcc.CfgCenter

open Eafcc.Model Eafcc.Storage

/-! # The center and its namespaces -/

variable {Pri : Type}

inductive CCLibError where
  | namespaceError (message : Str)
  | memoryIndexError (cause : MemoryIndexError)

structure StorageChangeEvent where
  newVersion : VersionItem

def returned {ε α : Type} : Except ε α → Rust ε α
  | .ok value => .ok value
  | .error reason => .error (.error reason)

/-- What the calls of one moment give: the backend's list of changed files
between two versions, and the loading of a namespace, where it returns. -/
structure Answers (crates : Crates Pri) where
  getDiffList : VersionItem → VersionItem → Str → Except StorageBackendError (List Str)
  memStorageNew : Str → VersionItem → Except MemoryIndexError (MemStorage Pri)
  genuine : ∀ ns version, ∃ backend fuel,
    MemStorage.new crates backend fuel ns version = some (returned (memStorageNew ns version))

variable {crates : Crates Pri}

/-- A loaded snapshot is one of the version asked for. -/
theorem Answers.version_eq (answers : Answers crates) {ns : Str} {version : VersionItem}
    {store : MemStorage Pri} (loaded : answers.memStorageNew ns version = .ok store) :
    store.version = version := by
  obtain ⟨backend, fuel, same⟩ := answers.genuine ns version
  rw [loaded, MemStorage.new, Option.map_eq_some_iff] at same
  obtain ⟨result, -, same⟩ := same
  cases result with
  | error failure => simp [returned, Except.map] at same
  | ok indices =>
      simp only [Except.map, returned, Except.ok.injEq] at same
      rw [← same]

/-! ### A backend without files -/

def emptyBackend : StorageBackend :=
  .withDefaultWalk (fun _ => .error .utf8Error) fun _ _ => .ok []

def brokenBackend : StorageBackend :=
  .withDefaultWalk (fun _ => .error .utf8Error) fun _ _ => .error .utf8Error

theorem new_relative {backend : StorageBackend} {fuel : Nat} {ns : Str} {version : VersionItem}
    (relative : ns.head? ≠ some '/') :
    MemStorage.new crates backend fuel ns version =
      some (.error (.error .namespaceNotAbsolutePath)) := by
  have fails : loadRule crates backend fuel ns version .empty =
      some (.error (.error .namespaceNotAbsolutePath)) := by
    unfold loadRule loadObjects
    split
    · simp at relative
    · rfl
  simp [MemStorage.new, IndexBuilder.load, thenLoad, fails, Except.map]

/-- What calls give that find no files, and fail to list the directories of some
namespaces and versions. -/
def Answers.withoutFiles (crates : Crates Pri)
    (getDiffList : VersionItem → VersionItem → Str → Except StorageBackendError (List Str))
    (fails : Str → VersionItem → Bool) : Answers crates where
  getDiffList
  memStorageNew ns version :=
    if ns.head? = some '/' then
      if fails ns version then .error (.storageBackendError .utf8Error)
      else .ok { version, indices := .empty }
    else .error .namespaceNotAbsolutePath
  genuine ns version := by
    by_cases absolute : ns.head? = some '/'
    · obtain ⟨relative, rfl⟩ := List.head?_eq_some_iff.mp absolute
      cases fails ('/' :: relative) version with
      | false => exact ⟨emptyBackend, 2, rfl⟩
      | true => exact ⟨brokenBackend, 2, rfl⟩
    · refine ⟨emptyBackend, 2, ?_⟩
      rw [new_relative absolute, if_neg absolute]
      rfl

/-- The same answers but for one load. -/
def Answers.withStore (answers : Answers crates) (ns : Str) (version : VersionItem)
    (memStore : MemStorage Pri)
    (loads : ∃ backend fuel, MemStorage.new crates backend fuel ns version = some (.ok memStore)) :
    Answers crates where
  getDiffList := answers.getDiffList
  memStorageNew other wanted :=
    if other = ns ∧ wanted = version then .ok memStore else answers.memStorageNew other wanted
  genuine other wanted := by
    split
    · rename_i same
      obtain ⟨rfl, rfl⟩ := same
      exact loads
    · exact answers.genuine other wanted

section WithStore

variable {answers : Answers crates} {ns : Str} {version : VersionItem} {memStore : MemStorage Pri}
  {loads : ∃ backend fuel, MemStorage.new crates backend fuel ns version = some (.ok memStore)}

@[simp] theorem Answers.withStore_own :
    (answers.withStore ns version memStore loads).memStorageNew ns version = .ok memStore :=
  if_pos ⟨rfl, rfl⟩

end WithStore

/-- The state of the center. `handles` are all the handles that were ever given
out, and the map of namespaces refers to them by their place. -/
structure CFGCenterInner (Pri : Type) where
  handles : List (NamespaceScopedCFGCenter Pri)
  namespaces : Finmap (fun _ : Str => Nat)
  currentVersion : VersionItem
  filed : ∀ ns id, namespaces.lookup ns = some id →
    ∃ handle, handles[id]? = some handle ∧ handle.namespaceName = ns

namespace CFGCenterInner

def new (version : VersionItem) : CFGCenterInner Pri where
  handles := []
  namespaces := ∅
  currentVersion := version
  filed ns id found := by simp at found

def getNamespaceScopedCfgCenter (center : CFGCenterInner Pri) (ns : Str) : Except CCLibError Nat :=
  match center.namespaces.lookup ns with
  | some id => .ok id
  | none => .error (.namespaceError "no namespace found".toList)

theorem filed_unique (center : CFGCenterInner Pri) {ns other : Str} {id : Nat}
    (found : center.namespaces.lookup ns = some id) (found' : center.namespaces.lookup other = some id) :
    ns = other := by
  obtain ⟨handle, stored, named⟩ := center.filed ns id found
  obtain ⟨handle', stored', named'⟩ := center.filed other id found'
  rw [stored] at stored'
  cases stored'
  exact named.symm.trans named'

/-- An entry is that of a namespace, or has another name and another handle. -/
theorem same_or_apart (center : CFGCenterInner Pri) {ns other : Str} {id otherId : Nat}
    (found : center.namespaces.lookup ns = some id)
    (found' : center.namespaces.lookup other = some otherId) :
    (other = ns ∧ otherId = id) ∨ (ns ≠ other ∧ otherId ≠ id) := by
  by_cases same : ns = other
  · subst same
    rw [found, Option.some.injEq] at found'
    exact .inl ⟨rfl, found'.symm⟩
  · refine .inr ⟨same, fun sameHandle => ?_⟩
    subst sameHandle
    exact same (center.filed_unique found found')

/-! ## Creating a namespace -/

def validNamespace (ns : Str) : Bool :=
  ns.head? = some '/' && ns.getLast? = some '/'

/-- Puts a new handle into the map, in the place of any other of its namespace. -/
def insert (center : CFGCenterInner Pri) (handle : NamespaceScopedCFGCenter Pri) :
    CFGCenterInner Pri where
  handles := center.handles ++ [handle]
  namespaces := center.namespaces.insert handle.namespaceName center.handles.length
  currentVersion := center.currentVersion
  filed ns id found := by
    by_cases same : ns = handle.namespaceName
    · rw [same, Finmap.lookup_insert, Option.some.injEq] at found
      exact ⟨handle, by simp [← found], same.symm⟩
    · rw [Finmap.lookup_insert_of_ne _ same] at found
      obtain ⟨earlier, stored, named⟩ := center.filed ns id found
      have bound := (List.getElem?_eq_some_iff.mp stored).1
      exact ⟨earlier, by rwa [List.getElem?_append_left bound], named⟩

def createNamespaceScopedCfgCenter (answers : Answers crates) (center : CFGCenterInner Pri) (ns : Str)
    (notifyLevel : UpdateNotifyLevel) (callback : Bool) :
    CFGCenterInner Pri × Except CCLibError Nat :=
  if !validNamespace ns then
    (center, .error (.namespaceError "namespace must starts and end with `/`".toList))
  else
    match answers.memStorageNew ns center.currentVersion with
    | .error reason => (center, .error (.memoryIndexError reason))
    | .ok memStore =>
        (center.insert (.new ns memStore notifyLevel callback), .ok center.handles.length)

/-! ## Processing an event -/

/-- What an arm of the loop passes on to the namespace's own update. -/
def loadChanged (answers : Answers crates) (notifyLevel : UpdateNotifyLevel)
    (oldVersion newVersion : VersionItem) (ns : Str) : Option (MemStorage Pri × List Str) :=
  match notifyLevel with
  | .notifyWithoutChangedKeysByGlobal =>
      match answers.memStorageNew ns newVersion with
      | .ok newMemStore => some (newMemStore, [])
      | .error _ => none
  | .notifyWithoutChangedKeysInNamespace =>
      match answers.getDiffList oldVersion newVersion ns with
      | .error _ => none
      | .ok changedFiles =>
          if changedFiles.length = 0 then none
          else
            match answers.memStorageNew ns newVersion with
            | .ok newMemStore => some (newMemStore, changedFiles)
            | .error _ => none
  | .notifyWithMaybeChangedKeys =>
      match answers.getDiffList oldVersion newVersion ns with
      | .error _ => none
      | .ok changedFiles =>
          if changedFiles.length = 0 then none
          else
            match answers.memStorageNew ns newVersion with
            -- The loaded snapshot is dropped at the end of this arm.
            | .ok _ => none
            | .error _ => none
  | .noNotify => none

/-- The update of one handle. -/
def install (center : CFGCenterInner Pri) (id : Nat) (newMemStore : MemStorage Pri)
    (changes : List Str) : CFGCenterInner Pri where
  handles := center.handles.modify id fun handle => handle.updateCallback newMemStore changes
  namespaces := center.namespaces
  currentVersion := center.currentVersion
  filed ns other found := by
    obtain ⟨handle, stored, named⟩ := center.filed ns other found
    simp only [List.getElem?_modify, stored]
    by_cases same : id = other
    · exact ⟨handle.updateCallback newMemStore changes, by simp [same], by simp [named]⟩
    · exact ⟨handle, by simp [same], named⟩

def setVersion (center : CFGCenterInner Pri) (version : VersionItem) : CFGCenterInner Pri :=
  { center with currentVersion := version }

/-- The body of the loop over the namespaces. -/
def updateNamespace (answers : Answers crates) (e : StorageChangeEvent) (center : CFGCenterInner Pri)
    (entry : Str × Nat) : CFGCenterInner Pri :=
  match center.handles[entry.2]? with
  | none => center
  | some handle =>
      match loadChanged answers handle.notifyLevel center.currentVersion e.newVersion entry.1 with
      | none => center
      | some (newMemStore, changes) => center.install entry.2 newMemStore changes

/-- An order in which the iteration over the map of namespaces may go. -/
def Iteration (center : CFGCenterInner Pri) (order : List (Str × Nat)) : Prop :=
  (order.map Prod.fst).Nodup ∧ ∀ ns id, (ns, id) ∈ order ↔ center.namespaces.lookup ns = some id

/-- The processing of an event, whose iteration over the map visits `order`. -/
def updateCallback (answers : Answers crates) (order : List (Str × Nat)) (e : StorageChangeEvent)
    (center : CFGCenterInner Pri) : CFGCenterInner Pri :=
  (order.foldl (updateNamespace answers e) center).setVersion e.newVersion

end CFGCenterInner

end Eafcc.CfgCenter
