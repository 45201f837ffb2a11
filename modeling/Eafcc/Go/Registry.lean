import Eafcc.CfgCenter.ShippedBackends
import Eafcc.Go.Cache

namespace Eafcc.CfgCenter

variable {Pri : Type}

/-- What an update of the handle calls its callback with. -/
def NamespaceScopedCFGCenter.call (handle : NamespaceScopedCFGCenter Pri) (newMemStore : MemStorage Pri)
    (changes : List Str) : Option (Differ Pri) :=
  if handle.notifyLevel = .notifyWithoutChangedKeysByGlobal ∧ handle.callback = true then
    some
      { notifyLevel := handle.notifyLevel, oldMemStore := handle.currentMemstore, newMemStore
        changedFiles := changes }
  else none

theorem NamespaceScopedCFGCenter.updateCallback_calls (handle : NamespaceScopedCFGCenter Pri)
    (newMemStore : MemStorage Pri) (changes : List Str) :
    (handle.updateCallback newMemStore changes).called =
      handle.called ++ (handle.call newMemStore changes).toList := by
  cases level : handle.notifyLevel <;> cases set : handle.callback <;>
    simp [NamespaceScopedCFGCenter.updateCallback, NamespaceScopedCFGCenter.call, level, set]

end Eafcc.CfgCenter

namespace Eafcc.Go.Registry

open Eafcc.Model Eafcc.Storage Eafcc.CfgCenter Eafcc.Ffi Transition

/-! # The namespaces that the library knows by number

The library cannot hold a pointer of Go.  Its callback holds a number instead, under
which the binding finds the namespace when it is called.
-/

variable {Pri : Type} {crates : Crates Pri}

structure CreateRequest where
  namespaceName : GoString
  notifyLevel : UpdateNotifyLevel
  updateCB : Bool
  cacheSize : Nat

/-- What `create_namespace` reads of the C string: up to a NUL, where it is UTF-8. -/
def CreateRequest.toStr (request : CreateRequest) : Except FFIError Str :=
  (cString request.namespaceName).toStr

/-- `cc` is the place of the handle in the center, and `seen` what `updateCB` was called with. -/
structure Namespace (Pri : Type) where
  cc : Nat
  cache : CfgCache Pri
  cacheSize : Nat
  updateCB : Bool
  seen : List (Differ Pri)

namespace Namespace

def new (request : CreateRequest) (cc : Nat) : Namespace Pri :=
  { cc, cache := .new request.cacheSize, cacheSize := request.cacheSize, updateCB := request.updateCB, seen := [] }

/-- The body of `update_cb_go`, where the namespace is known. -/
def update (ns : Namespace Pri) (differ : Differ Pri) : Namespace Pri :=
  { ns with
    cache := .new ns.cacheSize
    seen := if ns.updateCB then ns.seen ++ [differ] else ns.seen }

end Namespace

/-- The namespaces are referred to by their places. -/
structure NamespaceInstanceStorageForCGo where
  store : UInt64 → Option Nat
  idGen : UInt64

namespace NamespaceInstanceStorageForCGo

def getNewID (storage : NamespaceInstanceStorageForCGo) : UInt64 × NamespaceInstanceStorageForCGo :=
  (storage.idGen + 1, { storage with idGen := storage.idGen + 1 })

def put (storage : NamespaceInstanceStorageForCGo) (p : UInt64) (c : Nat) : NamespaceInstanceStorageForCGo :=
  { storage with store := Function.update storage.store p (some c) }

def get (storage : NamespaceInstanceStorageForCGo) (p : UInt64) : Option Nat := storage.store p

end NamespaceInstanceStorageForCGo

/-- Where a call of `CreateNamespace` stands.  In `creating` the library runs, and has given
a handle its place or not yet. -/
inductive CreateCall where
  | idle
  | named (request : CreateRequest) (userdata : UInt64)
  | creating (request : CreateRequest) (userdata : UInt64) (cc : Option Nat)
  | created (request : CreateRequest) (userdata : UInt64) (cc : Nat)

def CreateCall.isCreating : CreateCall → Bool
  | .creating .. => true
  | _ => false

/-- The number that the call has drawn and not put yet. -/
def CreateCall.userdata : CreateCall → Option UInt64
  | .idle => none
  | .named _ userdata => some userdata
  | .creating _ userdata _ => some userdata
  | .created _ userdata _ => some userdata

/-- The place of the handle that the call has been given. -/
def CreateCall.cc : CreateCall → Option Nat
  | .creating _ _ cc => cc
  | .created _ _ cc => some cc
  | _ => none

/-- The library and the binding. `userData` has the number in each handle's callback. -/
structure Binding (Pri : Type) where
  core : State Pri
  userData : List UInt64
  storage : NamespaceInstanceStorageForCGo
  namespaces : List (Namespace Pri)
  calls : Nat → CreateCall

def Binding.start (version : VersionItem) : Binding Pri where
  core := .start version
  userData := []
  storage := { store := fun _ => none, idGen := 0 }
  namespaces := []
  calls _ := .idle

/-- The namespaces after `update_cb_go` was called, or was not. -/
def Binding.updateCbGo (s : Binding Pri) (userData : UInt64) (call : Option (Differ Pri)) :
    List (Namespace Pri) :=
  match call, s.storage.get userData with
  | some differ, some place => s.namespaces.modify place fun ns => ns.update differ
  | _, _ => s.namespaces

inductive BindingAction (crates : Crates Pri) where
  | getNewID (request : CreateRequest)
  | unread
  | core (action : Action crates)
  | put
  | query (place : Nat)

/-- The actions that leave the handles as they are. -/
def Quiet : Action crates → Prop
  | .insert .. => False
  | .install .. => False
  | _ => True

def Creates : Action crates → Prop
  | .call (.createNamespace ..) => True
  | _ => False

/-- A step of one thread. Only the binding creates namespaces, and always with `update_cb_go`. -/
inductive BindingStep (crates : Crates Pri) : Binding Pri → Nat × BindingAction crates → Binding Pri → Prop
  | getNewID {s : Binding Pri} {t : Nat} {request : CreateRequest} :
      s.calls t = .idle →
      BindingStep crates s (t, .getNewID request)
        { s with
          storage := s.storage.getNewID.2
          calls := Function.update s.calls t (.named request s.storage.getNewID.1) }
  | unread {s : Binding Pri} {t : Nat} {request : CreateRequest} {userdata : UInt64} {reason : FFIError} :
      s.calls t = .named request userdata → request.toStr = .error reason →
      BindingStep crates s (t, .unread) { s with calls := Function.update s.calls t .idle }
  | createNamespace {s : Binding Pri} {t : Nat} {request : CreateRequest} {userdata : UInt64} {ns : Str}
      {core : State Pri} :
      s.calls t = .named request userdata → request.toStr = .ok ns →
      CfgCenter.Step crates s.core (t, .call (.createNamespace ns request.notifyLevel true)) core →
      CFGCenterInner.validNamespace ns = true →
      BindingStep crates s (t, .core (.call (.createNamespace ns request.notifyLevel true)))
        { s with core, calls := Function.update s.calls t (.creating request userdata none) }
  | refused {s : Binding Pri} {t : Nat} {request : CreateRequest} {userdata : UInt64} {ns : Str}
      {core : State Pri} :
      s.calls t = .named request userdata → request.toStr = .ok ns →
      CfgCenter.Step crates s.core (t, .call (.createNamespace ns request.notifyLevel true)) core →
      CFGCenterInner.validNamespace ns = false →
      BindingStep crates s (t, .core (.call (.createNamespace ns request.notifyLevel true)))
        { s with core, calls := Function.update s.calls t .idle }
  | insert {s : Binding Pri} {t : Nat} {request : CreateRequest} {userdata : UInt64} {cc : Option Nat}
      {ns : Str} {id : Nat} {core : State Pri} :
      s.calls t = .creating request userdata cc → CfgCenter.Step crates s.core (t, .insert ns id) core →
      BindingStep crates s (t, .core (.insert ns id))
        { s with
          core
          userData := s.userData ++ [userdata]
          calls := Function.update s.calls t (.creating request userdata (some id)) }
  | returns {s : Binding Pri} {t : Nat} {request : CreateRequest} {userdata : UInt64} {id : Nat}
      {core : State Pri} :
      s.calls t = .creating request userdata (some id) →
      CfgCenter.Step crates s.core (t, .release .currentVersion) core →
      BindingStep crates s (t, .core (.release .currentVersion))
        { s with core, calls := Function.update s.calls t (.created request userdata id) }
  | returnsNull {s : Binding Pri} {t : Nat} {request : CreateRequest} {userdata : UInt64}
      {core : State Pri} :
      s.calls t = .creating request userdata none → CfgCenter.Step crates s.core (t, .release .currentVersion) core →
      BindingStep crates s (t, .core (.release .currentVersion))
        { s with core, calls := Function.update s.calls t .idle }
  | put {s : Binding Pri} {t : Nat} {request : CreateRequest} {userdata : UInt64} {id : Nat} :
      s.calls t = .created request userdata id →
      BindingStep crates s (t, .put)
        { s with
          storage := s.storage.put userdata s.namespaces.length
          namespaces := s.namespaces ++ [.new request id]
          calls := Function.update s.calls t .idle }
  | install {s : Binding Pri} {t : Nat} {e : StorageChangeEvent} {ns : Str} {id : Nat}
      {newMemStore : MemStorage Pri} {changes : List Str} {rest : List (Str × Nat)}
      {handle : NamespaceScopedCFGCenter Pri} {userdata : UInt64} {core : State Pri} :
      s.core.threads t = .updateInstall e (ns, id) newMemStore changes rest →
      s.core.center.handles[id]? = some handle → s.userData[id]? = some userdata →
      CfgCenter.Step crates s.core (t, .install ns id e newMemStore) core →
      BindingStep crates s (t, .core (.install ns id e newMemStore))
        { s with core, namespaces := s.updateCbGo userdata (handle.call newMemStore changes) }
  | other {s : Binding Pri} {t : Nat} {action : Action crates} {core : State Pri} :
      Quiet action → ¬ Creates action → (action = .release .currentVersion → (s.calls t).isCreating = false) →
      CfgCenter.Step crates s.core (t, action) core →
      BindingStep crates s (t, .core action) { s with core }
  -- A client of the namespace leaves any cache behind.
  | query {s : Binding Pri} {t place : Nat} {cache : CfgCache Pri} :
      BindingStep crates s (t, .query place)
        { s with namespaces := s.namespaces.modify place fun ns => { ns with cache } }

/-! ## What the library does in a step -/

section Core

variable {core core' : State Pri} {t id : Nat} {action : Action crates} {ns : Str} {e : StorageChangeEvent}
  {newMemStore : MemStorage Pri} {changes : List Str} {rest : List (Str × Nat)}

theorem step_quiet (step : CfgCenter.Step crates core (t, action) core') (quiet : Quiet action) :
    core'.center.handles = core.center.handles := by
  cases step with
  | run moves permitted =>
      generalize core.threads t = before at moves
      cases moves with
      | createInsert => cases quiet
      | updateInstall => cases quiet
      | _ => rfl

theorem step_elsewhere {label : Nat × Action crates} (step : CfgCenter.Step crates core label core') {u : Nat}
    (other : u ≠ label.1) : core'.threads u = core.threads u := by
  cases step
  exact Function.update_of_ne other _ _

theorem step_insert (step : CfgCenter.Step crates core (t, .insert ns id) core') :
    (∃ handle, core.threads t = .createInsert handle ∧
      core'.center.handles = core.center.handles ++ [handle]) ∧
    id = core.center.handles.length ∧ core'.threads t = .createUnlock := by
  cases step with
  | run moves permitted =>
      obtain ⟨handle, thread, -, rfl, same, rfl⟩ := moves.inserts
      exact ⟨⟨handle, thread, rfl⟩, same, Function.update_self _ _ _⟩

theorem step_install (thread : core.threads t = .updateInstall e (ns, id) newMemStore changes rest)
    (step : CfgCenter.Step crates core (t, .install ns id e newMemStore) core') :
    core'.center.handles = core.center.handles.modify id fun handle => handle.updateCallback newMemStore changes := by
  cases step with
  | run moves permitted =>
      rw [thread] at moves
      cases moves
      rfl

/-- A create call that has filed its handle only releases its locks. -/
def Filed : Thread Pri → Prop
  | .createUnlock => True
  | .createReturn => True
  | _ => False

theorem step_filed (step : CfgCenter.Step crates core (t, action) core') (filed : Filed (core.threads t)) :
    (∃ mutex, action = .release mutex) ∧ (action ≠ .release .currentVersion → Filed (core'.threads t)) := by
  cases step with
  | run moves permitted =>
      generalize thread : core.threads t = before at moves filed
      simp only [Function.update_self]
      cases moves with
      | createUnlock => exact ⟨⟨_, rfl⟩, fun _ => trivial⟩
      | createReturn => exact ⟨⟨_, rfl⟩, fun other => absurd rfl other⟩
      | _ => cases filed

end Core

/-! ## Numbers and namespaces -/

/-- What holds of a call, by the numbers that were drawn, filed and put. -/
structure CallValid (storage : NamespaceInstanceStorageForCGo) (userData : List UInt64) (call : CreateCall)
    (thread : Thread Pri) : Prop where
  drawn : ∀ userdata, call.userdata = some userdata → userdata ≤ storage.idGen
  pending : ∀ userdata, call.userdata = some userdata → storage.store userdata = none
  filed : ∀ userdata id, call.userdata = some userdata → call.cc = some id → userData[id]? = some userdata
  unfiled : ∀ userdata, call.userdata = some userdata → call.cc = none → userdata ∉ userData
  releasing : call.isCreating = true → call.cc ≠ none → Filed thread

structure CallsValid (storage : NamespaceInstanceStorageForCGo) (userData : List UInt64)
    (calls : Nat → CreateCall) (threads : Nat → Thread Pri) : Prop where
  each : ∀ t, CallValid storage userData (calls t) (threads t)
  apart : ∀ t u userdata, (calls t).userdata = some userdata → (calls u).userdata = some userdata → t = u

/-- What holds while no number was drawn twice. -/
structure Binding.Valid (s : Binding Pri) : Prop where
  sized : s.userData.length = s.core.center.handles.length
  distinct : s.userData.Nodup
  given : ∀ userdata ∈ s.userData, userdata ≤ s.storage.idGen
  calls : CallsValid s.storage s.userData s.calls s.core.threads
  known : ∀ id ∈ s.namespaces.map Namespace.cc, id < s.userData.length
  stored : ∀ userdata place, s.storage.store userdata = some place ↔
    ∃ id, (s.namespaces.map Namespace.cc)[place]? = some id ∧ s.userData[id]? = some userdata

section Valid

variable {s s' : Binding Pri} {userdata : UInt64} {place id t : Nat} {ns : Namespace Pri}
  {core : State Pri} {call : CreateCall}

theorem callValid_idle {storage : NamespaceInstanceStorageForCGo} {userData : List UInt64}
    {thread : Thread Pri} : CallValid storage userData .idle thread where
  drawn _ none := by cases none
  pending _ none := by cases none
  filed _ _ none := by cases none
  unfiled _ none := by cases none
  releasing none := by cases none

/-- A call whose handle is still to be filed has none. -/
theorem CallValid.unfiled_of_insert {storage : NamespaceInstanceStorageForCGo} {userData : List UInt64}
    {thread : Thread Pri} {request : CreateRequest} {cc : Option Nat} {handle : NamespaceScopedCFGCenter Pri}
    (valid : CallValid storage userData call thread) (creates : call = .creating request userdata cc)
    (inserts : thread = .createInsert handle) : cc = none := by
  by_contra filed
  have releasing := valid.releasing (by rw [creates]; rfl) (by rw [creates]; exact filed)
  rw [inserts] at releasing
  cases releasing

theorem Binding.start_valid (version : VersionItem) : (Binding.start version : Binding Pri).Valid where
  sized := rfl
  distinct := List.nodup_nil
  given _ member := by cases member
  calls := ⟨fun _ => callValid_idle, fun _ _ _ none => (by cases none)⟩
  known _ member := by cases member
  stored userdata place := by simp [Binding.start]

theorem Binding.Valid.stored_given (valid : s.Valid) (stored : s.storage.store userdata = some place) :
    userdata ∈ s.userData := by
  obtain ⟨id, -, given⟩ := (valid.stored userdata place).mp stored
  exact List.mem_of_getElem? given

theorem Binding.Valid.unstored (valid : s.Valid) (absent : userdata ∉ s.userData) :
    s.storage.store userdata = none := by
  cases stored : s.storage.store userdata with
  | none => rfl
  | some place => exact absurd (valid.stored_given stored) absent

theorem get_cc (here : s.namespaces[place]? = some ns) : (s.namespaces.map Namespace.cc)[place]? = some ns.cc := by
  rw [List.getElem?_map, here, Option.map_some]

theorem Binding.Valid.stored_cc (valid : s.Valid) (given : s.userData[id]? = some userdata)
    (here : s.namespaces[place]? = some ns) : s.storage.store userdata = some place ↔ ns.cc = id := by
  rw [valid.stored]
  constructor
  · intro found
    obtain ⟨other, there, same⟩ := found
    rw [get_cc here, Option.some.injEq] at there
    rw [there]
    have within := (List.getElem?_eq_some_iff.mp same).1
    exact (List.getElem?_inj within valid.distinct).mp (same.trans given.symm)
  · intro own
    exact ⟨ns.cc, get_cc here, own ▸ given⟩

/-- Two namespaces have two handles. -/
theorem Binding.Valid.own_handle (valid : s.Valid) {other : Nat} {ns' : Namespace Pri}
    (here : s.namespaces[place]? = some ns) (there : s.namespaces[other]? = some ns') (same : ns.cc = ns'.cc) :
    place = other := by
  have within := valid.known ns.cc (List.mem_of_getElem? (get_cc here))
  have given := List.getElem?_eq_getElem within
  have first := (valid.stored_cc given here).mpr rfl
  have second := (valid.stored_cc given there).mpr same.symm
  rw [first, Option.some.injEq] at second
  exact second

theorem updateCbGo_get (s : Binding Pri) (userdata : UInt64) (call : Option (Differ Pri)) (place : Nat) :
    (s.updateCbGo userdata call)[place]? = (s.namespaces[place]?).map fun ns =>
      if s.storage.store userdata = some place then call.elim ns ns.update else ns := by
  cases call with
  | none => simp [Binding.updateCbGo]
  | some differ =>
      cases stored : s.storage.store userdata with
      | none => simp [Binding.updateCbGo, NamespaceInstanceStorageForCGo.get, stored]
      | some other =>
          simp only [Binding.updateCbGo, NamespaceInstanceStorageForCGo.get, stored, List.getElem?_modify,
            Option.some.injEq, Option.elim_some]
          rfl

theorem modify_cc (namespaces : List (Namespace Pri)) (place : Nat) {change : Namespace Pri → Namespace Pri}
    (same : ∀ ns, (change ns).cc = ns.cc) :
    (namespaces.modify place change).map Namespace.cc = namespaces.map Namespace.cc := by
  induction namespaces generalizing place with
  | nil => simp
  | cons ns rest ih =>
      cases place with
      | zero => simp [same]
      | succ place => simp [ih]

theorem updateCbGo_cc (s : Binding Pri) (userdata : UInt64) (call : Option (Differ Pri)) :
    (s.updateCbGo userdata call).map Namespace.cc = s.namespaces.map Namespace.cc := by
  unfold Binding.updateCbGo
  split
  · exact modify_cc _ _ fun _ => rfl
  · rfl

end Valid

/-! ### Calls -/

section Calls

variable {storage storage' : NamespaceInstanceStorageForCGo} {userData userData' : List UInt64}
  {calls : Nat → CreateCall} {threads threads' : Nat → Thread Pri} {t : Nat} {call : CreateCall}
  {userdata : UInt64}

/-- A call is changed, and the others stay valid. -/
theorem CallsValid.update (valid : CallsValid storage userData calls threads)
    (here : CallValid storage' userData' call (threads' t))
    (there : ∀ u, u ≠ t → CallValid storage' userData' (calls u) (threads' u))
    (apart : ∀ u userdata, u ≠ t → call.userdata = some userdata → (calls u).userdata ≠ some userdata) :
    CallsValid storage' userData' (Function.update calls t call) threads' := by
  refine ⟨fun u => ?_, fun u v userdata first second => ?_⟩
  · by_cases own : u = t
    · rw [own, Function.update_self]
      exact here
    · rw [Function.update_of_ne own]
      exact there u own
  · by_cases own : u = t
    · rw [own, Function.update_self] at first
      by_cases own' : v = t
      · exact own.trans own'.symm
      · rw [Function.update_of_ne own'] at second
        exact absurd second (apart v userdata own' first)
    · rw [Function.update_of_ne own] at first
      by_cases own' : v = t
      · rw [own', Function.update_self] at second
        exact absurd first (apart u userdata own second)
      · rw [Function.update_of_ne own'] at second
        exact valid.apart u v userdata first second

theorem CallsValid.draw (valid : CallsValid storage userData calls threads) (request : CreateRequest)
    (grows : ∀ userdata, userdata ≤ storage.idGen → userdata < storage.idGen + 1)
    (absent : storage.idGen + 1 ∉ userData) (unstored : storage.store (storage.idGen + 1) = none) :
    CallsValid storage.getNewID.2 userData (Function.update calls t (.named request storage.getNewID.1)) threads := by
  apply valid.update
  · exact ⟨fun _ drawn => by cases drawn; exact UInt64.le_refl _, fun _ drawn => by cases drawn; exact unstored,
      fun _ _ _ none => (by cases none), fun _ drawn _ => by cases drawn; exact absent, fun none => (by cases none)⟩
  · intro u _
    have before := valid.each u
    exact ⟨fun userdata drawn => UInt64.le_of_lt (grows userdata (before.drawn userdata drawn)),
      before.pending, before.filed, before.unfiled, before.releasing⟩
  · intro u userdata _ drawn used
    cases drawn
    exact UInt64.lt_irrefl _ (grows _ ((valid.each u).drawn _ used))

/-- A call that is over, or goes on with its number. -/
theorem CallsValid.advance (valid : CallsValid storage userData calls threads)
    (elsewhere : ∀ u, u ≠ t → threads' u = threads u)
    (goes : ∀ userdata, call.userdata = some userdata →
      (calls t).userdata = some userdata ∧ call.cc = (calls t).cc)
    (releasing : call.isCreating = true → call.cc ≠ none → Filed (threads' t)) :
    CallsValid storage userData (Function.update calls t call) threads' := by
  have before := valid.each t
  apply valid.update
  · refine ⟨fun userdata drawn => before.drawn userdata (goes userdata drawn).1,
      fun userdata drawn => before.pending userdata (goes userdata drawn).1, fun userdata id drawn filed => ?_,
      fun userdata drawn unfiled => ?_, releasing⟩
    · obtain ⟨drew, same⟩ := goes userdata drawn
      exact before.filed userdata id drew (same ▸ filed)
    · obtain ⟨drew, same⟩ := goes userdata drawn
      exact before.unfiled userdata drew (same ▸ unfiled)
  · intro u other
    rw [elsewhere u other]
    exact valid.each u
  · intro u userdata other drawn used
    exact other (valid.apart u t userdata used (goes userdata drawn).1)

theorem CallsValid.over (valid : CallsValid storage userData calls threads)
    (elsewhere : ∀ u, u ≠ t → threads' u = threads u) :
    CallsValid storage userData (Function.update calls t .idle) threads' := by
  apply valid.advance elsewhere
  · intro _ none
    cases none
  · intro none
    cases none

theorem CallsValid.keeps (valid : CallsValid storage userData calls threads)
    (elsewhere : ∀ u, u ≠ t → threads' u = threads u)
    (releasing : (calls t).isCreating = true → (calls t).cc ≠ none → Filed (threads' t)) :
    CallsValid storage userData calls threads' := by
  have kept := valid.advance elsewhere (fun _ drawn => ⟨drawn, rfl⟩) releasing
  rwa [Function.update_eq_self] at kept

/-- The handle of a call is filed with its number. -/
theorem CallsValid.insert (valid : CallsValid storage userData calls threads) {request : CreateRequest}
    (creates : calls t = .creating request userdata none)
    (elsewhere : ∀ u, u ≠ t → threads' u = threads u) (filed : Filed (threads' t)) :
    CallsValid storage (userData ++ [userdata])
      (Function.update calls t (.creating request userdata (some userData.length))) threads' := by
  have before := valid.each t
  rw [creates] at before
  apply valid.update
  · refine ⟨before.drawn, before.pending, fun own id drawn here => ?_, fun _ _ none => (by cases none),
      fun _ _ => filed⟩
    cases drawn
    cases here
    exact List.getElem?_concat_length
  · intro u other
    rw [elsewhere u other]
    have outside := valid.each u
    refine ⟨outside.drawn, outside.pending, fun own id drawn here => ?_, fun own drawn none member => ?_,
      outside.releasing⟩
    · have given := outside.filed own id drawn here
      rw [List.getElem?_append_left (List.getElem?_eq_some_iff.mp given).1]
      exact given
    · rcases List.mem_append.mp member with earlier | last
      · exact outside.unfiled own drawn none earlier
      · rw [List.mem_singleton.mp last] at drawn
        exact other (valid.apart u t userdata drawn (by rw [creates]; rfl))
  · intro u own other drawn used
    cases drawn
    exact other (valid.apart u t userdata used (by rw [creates]; rfl))

/-- A call's number is put. -/
theorem CallsValid.put (valid : CallsValid storage userData calls threads) (place : Nat)
    (drawn : (calls t).userdata = some userdata) :
    CallsValid (storage.put userdata place) userData (Function.update calls t .idle) threads := by
  apply valid.update
  · exact callValid_idle
  · intro u other
    have before := valid.each u
    refine ⟨before.drawn, fun own drew => ?_, before.filed, before.unfiled, before.releasing⟩
    have different : own ≠ userdata := fun same => other (valid.apart u t own drew (same ▸ drawn))
    exact (Function.update_of_ne different _ _).trans (before.pending own drew)
  · intro u own _ none
    cases none

end Calls

/-! ### The steps -/

section Steps

variable {s s' : Binding Pri} {label : Nat × BindingAction crates}

/-- The numbers of the namespaces after one more was put. -/
theorem stored_put {store : UInt64 → Option Nat} {ccs : List Nat} {userData : List UInt64} {userdata : UInt64}
    {id : Nat}
    (stored : ∀ other place, store other = some place ↔ ∃ id, ccs[place]? = some id ∧ userData[id]? = some other)
    (given : userData[id]? = some userdata) (pending : store userdata = none) (other : UInt64) (place : Nat) :
    Function.update store userdata (some ccs.length) other = some place ↔
      ∃ here, (ccs ++ [id])[place]? = some here ∧ userData[here]? = some other := by
  by_cases within : place < ccs.length
  · rw [List.getElem?_append_left within, ← stored]
    by_cases same : other = userdata
    · rw [same, Function.update_self, pending, Option.some.injEq]
      exact ⟨fun last => absurd last (by omega), fun none => (by cases none)⟩
    · rw [Function.update_of_ne same]
  · have beyond : ccs[place]? = none := List.getElem?_eq_none (by omega)
    by_cases same : other = userdata
    · rw [same, Function.update_self, Option.some.injEq]
      constructor
      · intro last
        exact ⟨id, last ▸ List.getElem?_concat_length, given⟩
      · intro found
        obtain ⟨here, at_, -⟩ := found
        have bound := (List.getElem?_eq_some_iff.mp at_).1
        rw [List.length_append, List.length_singleton] at bound
        omega
    · rw [Function.update_of_ne same, stored]
      constructor
      · intro found
        obtain ⟨here, at_, -⟩ := found
        rw [beyond] at at_
        cases at_
      · intro found
        obtain ⟨here, at_, named⟩ := found
        rw [List.getElem?_append_right (by omega)] at at_
        rw [List.mem_singleton.mp (List.mem_of_getElem? at_), given, Option.some.injEq] at named
        exact absurd named.symm same

/-- Nothing is filed or put. -/
theorem Binding.Valid.moved (valid : s.Valid) (userData : s'.userData = s.userData)
    (storage : s'.storage = s.storage)
    (handles : s'.core.center.handles.length = s.core.center.handles.length)
    (ccs : s'.namespaces.map Namespace.cc = s.namespaces.map Namespace.cc)
    (calls : CallsValid s.storage s.userData s'.calls s'.core.threads) : s'.Valid := by
  rw [← storage, ← userData] at calls
  refine ⟨?_, ?_, ?_, calls, ?_, ?_⟩
  · rw [userData, handles]
    exact valid.sized
  · rw [userData]
    exact valid.distinct
  · rw [userData, storage]
    exact valid.given
  · rw [userData, ccs]
    exact valid.known
  · rw [userData, storage, ccs]
    exact valid.stored

variable {t : Nat} {userdata : UInt64} {core : State Pri} {request : CreateRequest}

/-- A fresh number is drawn. -/
theorem Binding.Valid.getNewID (valid : s.Valid) (request : CreateRequest)
    (fits : s.storage.idGen.toNat + 1 < 2 ^ 64) :
    ({ s with
        storage := s.storage.getNewID.2
        calls := Function.update s.calls t (.named request s.storage.getNewID.1) } : Binding Pri).Valid := by
  have grows : ∀ userdata, userdata ≤ s.storage.idGen → userdata < s.storage.idGen + 1 := by
    intro userdata bound
    rw [UInt64.lt_iff_toNat_lt, UInt64.toNat_add, UInt64.toNat_one, Nat.mod_eq_of_lt fits]
    exact Nat.lt_succ_of_le bound
  have absent : s.storage.idGen + 1 ∉ s.userData := fun member =>
    UInt64.lt_irrefl _ (grows _ (valid.given _ member))
  exact ⟨valid.sized, valid.distinct, fun userdata member => UInt64.le_of_lt (grows _ (valid.given _ member)),
    valid.calls.draw request grows absent (valid.unstored absent), valid.known, valid.stored⟩

/-- A handle is filed with the number of the call that created it. -/
theorem Binding.Valid.insert (valid : s.Valid) {cc : Option Nat} {ns : Str} {id : Nat}
    (creates : s.calls t = .creating request userdata cc)
    (step : CfgCenter.Step crates s.core (t, .insert ns id) core) :
    ({ s with
        core
        userData := s.userData ++ [userdata]
        calls := Function.update s.calls t (.creating request userdata (some id)) } : Binding Pri).Valid := by
  obtain ⟨⟨handle, thread, filed⟩, place, next⟩ := step_insert step
  have here := valid.calls.each t
  have first := here.unfiled_of_insert creates thread
  rw [creates] at here
  subst first
  have absent : userdata ∉ s.userData := here.unfiled userdata rfl rfl
  have calls := valid.calls.insert creates (fun u => step_elsewhere step) (by rw [next]; trivial)
  rw [valid.sized, ← place] at calls
  refine ⟨?_, ?_, fun other member => ?_, calls, fun id member => ?_, fun other place => ?_⟩
  · change (s.userData ++ [userdata]).length = core.center.handles.length
    rw [filed, List.length_append, List.length_append, valid.sized]
    rfl
  · rw [← List.concat_eq_append]
    exact valid.distinct.concat absent
  · rcases List.mem_append.mp member with earlier | last
    · exact valid.given other earlier
    · rw [List.mem_singleton.mp last]
      exact here.drawn userdata rfl
  · rw [List.length_append]
    exact Nat.lt_add_right _ (valid.known id member)
  · rw [valid.stored]
    apply exists_congr
    intro id
    refine and_congr_right fun member => ?_
    rw [List.getElem?_append_left (valid.known id (List.mem_of_getElem? member))]

/-- A namespace is put under the number of its handle. -/
theorem Binding.Valid.put (valid : s.Valid) {id : Nat}
    (created : s.calls t = .created request userdata id) :
    ({ s with
        storage := s.storage.put userdata s.namespaces.length
        namespaces := s.namespaces ++ [.new request id]
        calls := Function.update s.calls t .idle } : Binding Pri).Valid := by
  have here := valid.calls.each t
  rw [created] at here
  have given := here.filed userdata id rfl rfl
  have drawn : (s.calls t).userdata = some userdata := by
    rw [created]
    rfl
  have calls := valid.calls.put s.namespaces.length drawn
  have ccs : (s.namespaces ++ [Namespace.new request id]).map Namespace.cc =
    s.namespaces.map Namespace.cc ++ [id] := List.map_append
  refine ⟨valid.sized, valid.distinct, valid.given, calls, fun other member => ?_, fun other place => ?_⟩
  · rw [ccs] at member
    rcases List.mem_append.mp member with earlier | last
    · exact valid.known other earlier
    · rw [List.mem_singleton.mp last]
      exact (List.getElem?_eq_some_iff.mp given).1
  · rw [ccs, ← stored_put valid.stored given (here.pending userdata rfl), List.length_map]
    rfl

theorem BindingStep.valid (step : BindingStep crates s label s') (valid : s.Valid)
    (fits : ∀ request, label.2 = .getNewID request → s.storage.idGen.toNat + 1 < 2 ^ 64) : s'.Valid := by
  cases step with
  | @getNewID t request idle => exact valid.getNewID request (fits request rfl)
  | unread named _ => exact valid.moved rfl rfl rfl rfl (valid.calls.over fun _ _ => rfl)
  | @createNamespace t request userdata ns core named _ step _ =>
      have calls : CallsValid s.storage s.userData
          (Function.update s.calls t (.creating request userdata none)) core.threads := by
        apply valid.calls.advance (fun u => step_elsewhere step)
        · rw [named]
          exact fun _ drawn => ⟨drawn, rfl⟩
        · exact fun _ filed => absurd rfl filed
      exact valid.moved rfl rfl (congrArg List.length (step_quiet step trivial)) rfl calls
  | refused named _ step _ =>
      exact valid.moved rfl rfl (congrArg List.length (step_quiet step trivial)) rfl
        (valid.calls.over fun u => step_elsewhere step)
  | insert creates step => exact valid.insert creates step
  | @returns t request userdata id core creates step =>
      have calls : CallsValid s.storage s.userData
          (Function.update s.calls t (.created request userdata id)) core.threads := by
        apply valid.calls.advance (fun u => step_elsewhere step)
        · rw [creates]
          exact fun _ drawn => ⟨drawn, rfl⟩
        · intro none
          cases none
      exact valid.moved rfl rfl (congrArg List.length (step_quiet step trivial)) rfl calls
  | returnsNull creates step =>
      exact valid.moved rfl rfl (congrArg List.length (step_quiet step trivial)) rfl
        (valid.calls.over fun u => step_elsewhere step)
  | put created => exact valid.put created
  | install thread stored given step =>
      have calls := valid.calls.keeps (fun u => step_elsewhere step) fun creates filed => by
        have releasing := (valid.calls.each _).releasing creates filed
        rw [thread] at releasing
        cases releasing
      exact valid.moved rfl rfl (by rw [step_install thread step, List.length_modify]) (updateCbGo_cc s _ _) calls
  | other quiet _ returning step =>
      have calls := valid.calls.keeps (fun u => step_elsewhere step) fun creates filed => by
        refine (step_filed step ((valid.calls.each _).releasing creates filed)).2 fun returns => ?_
        rw [returning returns] at creates
        cases creates
      exact valid.moved rfl rfl (congrArg List.length (step_quiet step quiet)) rfl calls
  | query => exact valid.moved rfl rfl rfl (modify_cc _ _ fun _ => rfl) valid.calls

end Steps

/-! ## What a call gets -/

/-- The handle is the one that was asked for. -/
def CreateRequest.Gets (request : CreateRequest) (handle : NamespaceScopedCFGCenter Pri) : Prop :=
  request.toStr = .ok handle.namespaceName ∧ handle.notifyLevel = request.notifyLevel ∧ handle.callback = true

def CreateRequest.Asks (request : CreateRequest) : Thread Pri → Prop
  | .create ns level callback => request.toStr = .ok ns ∧ level = request.notifyLevel ∧ callback = true
  | .createLoad ns level callback => request.toStr = .ok ns ∧ level = request.notifyLevel ∧ callback = true
  | .createLock handle => request.Gets handle
  | .createInsert handle => request.Gets handle
  | .createReturn => True
  | _ => False

def CreateCall.Answered (handles : List (NamespaceScopedCFGCenter Pri)) (thread : Thread Pri) : CreateCall → Prop
  | .idle => True
  | .named _ _ => True
  | .creating request _ none => request.Asks thread
  | .creating request _ (some id) => ∃ handle, handles[id]? = some handle ∧ request.Gets handle
  | .created request _ id => ∃ handle, handles[id]? = some handle ∧ request.Gets handle

section Answered

variable {core core' : State Pri} {t : Nat} {action : Action crates} {request : CreateRequest} {call : CreateCall}
  {handles handles' : List (NamespaceScopedCFGCenter Pri)} {thread : Thread Pri} {s s' : Binding Pri}
  {label : Nat × BindingAction crates}

theorem step_asks (step : CfgCenter.Step crates core (t, action) core') (asks : request.Asks (core.threads t)) :
    (∃ ns id, action = .insert ns id) ∨ action = .release .currentVersion ∨ request.Asks (core'.threads t) := by
  cases step with
  | run moves permitted =>
      generalize core.threads t = before at moves asks
      simp only [Function.update_self]
      cases moves with
      | create => exact .inr (.inr asks)
      | createFail => exact .inr (.inr trivial)
      | createLoad => exact .inr (.inr asks)
      | createLock => exact .inr (.inr asks)
      | createInsert => exact .inl ⟨_, _, rfl⟩
      | createReturn => exact .inr (.inl rfl)
      | _ => cases asks

theorem BindingStep.handles_cases (step : BindingStep crates s label s') :
    s'.core.center.handles = s.core.center.handles ∨
      (∃ added, s'.core.center.handles = s.core.center.handles ++ [added]) ∨
      ∃ id newMemStore changes, s'.core.center.handles =
        s.core.center.handles.modify id fun handle => handle.updateCallback newMemStore changes := by
  cases step with
  | getNewID | unread | put | query => exact .inl rfl
  | createNamespace _ _ step | refused _ _ step | returns _ step | returnsNull _ step =>
      exact .inl (step_quiet step trivial)
  | other quiet _ _ step => exact .inl (step_quiet step quiet)
  | insert _ step =>
      obtain ⟨⟨added, -, filed⟩, -⟩ := step_insert step
      exact .inr (.inl ⟨added, filed⟩)
  | install thread _ _ step => exact .inr (.inr ⟨_, _, _, step_install thread step⟩)

/-- Every handle keeps its place, and is still the one asked for. -/
theorem BindingStep.kept (step : BindingStep crates s label s') {place : Nat}
    {handle : NamespaceScopedCFGCenter Pri} (stored : s.core.center.handles[place]? = some handle) :
    ∃ handle', s'.core.center.handles[place]? = some handle' ∧
      ∀ request : CreateRequest, request.Gets handle → request.Gets handle' := by
  rcases step.handles_cases with same | ⟨added, same⟩ | ⟨id, newMemStore, changes, same⟩
  · exact ⟨handle, same ▸ stored, fun _ gets => gets⟩
  · refine ⟨handle, ?_, fun _ gets => gets⟩
    rw [same, List.getElem?_append_left (List.getElem?_eq_some_iff.mp stored).1]
    exact stored
  · rw [same, List.getElem?_modify, stored]
    refine ⟨_, rfl, fun request gets => ?_⟩
    change request.Gets (if id = place then handle.updateCallback newMemStore changes else handle)
    split
    · simpa [CreateRequest.Gets] using gets
    · exact gets

theorem CreateCall.Answered.kept (answered : call.Answered s.core.center.handles thread)
    (step : BindingStep crates s label s') : call.Answered s'.core.center.handles thread := by
  cases call with
  | idle | named _ _ => trivial
  | creating request userdata cc =>
      cases cc with
      | none => exact answered
      | some id =>
          obtain ⟨handle, stored, gets⟩ := answered
          obtain ⟨handle', stored', still⟩ := step.kept stored
          exact ⟨handle', stored', still request gets⟩
  | created request userdata id =>
      obtain ⟨handle, stored, gets⟩ := answered
      obtain ⟨handle', stored', still⟩ := step.kept stored
      exact ⟨handle', stored', still request gets⟩

/-- Only a call that waits for its handle depends on where its thread stands. -/
theorem CreateCall.Answered.goes {thread' : Thread Pri} (answered : call.Answered handles thread)
    (goes : ∀ request userdata, call = .creating request userdata none → request.Asks thread → request.Asks thread') :
    call.Answered handles thread' := by
  cases call with
  | idle | named _ _ => trivial
  | creating request userdata cc =>
      cases cc with
      | none => exact goes request userdata rfl answered
      | some id => exact answered
  | created request userdata id => exact answered

theorem step_creates {ns : Str} {level : UpdateNotifyLevel} {callback : Bool}
    (step : CfgCenter.Step crates core (t, .call (.createNamespace ns level callback)) core')
    (valid : CFGCenterInner.validNamespace ns = true) : core'.threads t = .create ns level callback := by
  cases step with
  | run moves permitted =>
      generalize core.threads t = before at moves
      simp only [Function.update_self]
      cases moves with
      | callRefused refused =>
          rw [valid] at refused
          cases refused
      | callCreate => rfl

theorem BindingStep.answered (step : BindingStep crates s label s') (valid : s.Valid)
    (answered : ∀ t, (s.calls t).Answered s.core.center.handles (s.core.threads t)) :
    ∀ t, (s'.calls t).Answered s'.core.center.handles (s'.core.threads t) := by
  have kept : ∀ t, (s.calls t).Answered s'.core.center.handles (s.core.threads t) :=
    fun t => (answered t).kept step
  -- The thread that goes on has another call, or stands elsewhere in its call.
  have advance : ∀ {t : Nat} {call : CreateCall} {threads : Nat → Thread Pri},
      (∀ u, u ≠ t → threads u = s.core.threads u) → call.Answered s'.core.center.handles (threads t) →
      ∀ u, (Function.update s.calls t call u).Answered s'.core.center.handles (threads u) := by
    intro t call threads elsewhere here u
    by_cases own : u = t
    · rw [own, Function.update_self]
      exact here
    · rw [Function.update_of_ne own, elsewhere u own]
      exact kept u
  have stays : ∀ {t : Nat} {threads : Nat → Thread Pri}, (∀ u, u ≠ t → threads u = s.core.threads u) →
      (∀ request userdata, s.calls t = .creating request userdata none → request.Asks (s.core.threads t) →
        request.Asks (threads t)) →
      ∀ u, (s.calls u).Answered s'.core.center.handles (threads u) := by
    intro t threads elsewhere goes u
    by_cases own : u = t
    · rw [own]
      exact (kept t).goes goes
    · rw [elsewhere u own]
      exact kept u
  cases step with
  | getNewID idle => exact advance (fun _ _ => rfl) trivial
  | unread => exact advance (fun _ _ => rfl) trivial
  | createNamespace named read step accepted =>
      apply advance fun u => step_elsewhere step
      change CreateRequest.Asks _ _
      rw [step_creates step accepted]
      exact ⟨read, rfl, rfl⟩
  | refused named _ step _ => exact advance (fun u => step_elsewhere step) trivial
  | @insert t request userdata cc ns id core creates step =>
      obtain ⟨⟨handle, thread, filed⟩, place, next⟩ := step_insert step
      have first := (valid.calls.each t).unfiled_of_insert creates thread
      have asks := answered t
      rw [creates, first, thread] at asks
      apply advance fun u => step_elsewhere step
      refine ⟨handle, ?_, asks⟩
      rw [filed, place, List.getElem?_concat_length]
  | @returns t request userdata id core creates step =>
      have here := kept t
      rw [creates] at here
      exact advance (fun u => step_elsewhere step) here
  | returnsNull creates step => exact advance (fun u => step_elsewhere step) trivial
  | put created => exact advance (fun _ _ => rfl) trivial
  | install thread _ _ step =>
      apply stays fun u => step_elsewhere step
      intro request userdata _ asks
      rw [thread] at asks
      cases asks
  | other quiet _ returning step =>
      apply stays fun u => step_elsewhere step
      intro request userdata creates asks
      rcases step_asks step asks with ⟨ns, id, inserts⟩ | returns | still
      · rw [inserts] at quiet
        cases quiet
      · have outside := returning returns
        rw [creates] at outside
        cases outside
      · exact still
  | query => exact kept

end Answered

/-! ## What the callbacks of the binding are called with -/

abbrev BindingSteps (crates : Crates Pri) := List (Taken (Binding Pri) (Nat × BindingAction crates))

/-- A step has put the namespace that was asked for, while its handle was `early`. -/
def PutWith (steps : BindingSteps crates) (ns : Namespace Pri) (early : NamespaceScopedCFGCenter Pri) : Prop :=
  ∃ taken ∈ steps, ∃ t request userdata, taken.label = (t, .put) ∧
    taken.before.calls t = .created request userdata ns.cc ∧ request.updateCB = ns.updateCB ∧
    request.cacheSize = ns.cacheSize ∧ request.Gets early ∧
    taken.before.core.center.handles[ns.cc]? = some early

/-- The namespace was called for every call that its handle has received since it was put. -/
def Served (steps : BindingSteps crates) (handles : List (NamespaceScopedCFGCenter Pri))
    (ns : Namespace Pri) : Prop :=
  ∃ early handle delivered, PutWith steps ns early ∧ handles[ns.cc]? = some handle ∧
    handle.called = early.called ++ delivered ∧ ns.seen = if ns.updateCB then delivered else []

section Served

variable {s s' : Binding Pri} {label : Nat × BindingAction crates} {steps : BindingSteps crates}
  {handles handles' : List (NamespaceScopedCFGCenter Pri)} {ns ns' : Namespace Pri}
  {taken : Taken (Binding Pri) (Nat × BindingAction crates)}

theorem Served.more (served : Served steps handles ns) (cc : ns'.cc = ns.cc)
    (callback : ns'.updateCB = ns.updateCB) (size : ns'.cacheSize = ns.cacheSize)
    (goes : ∀ handle, handles[ns.cc]? = some handle → ∃ handle' calls, handles'[ns.cc]? = some handle' ∧
      handle'.called = handle.called ++ calls ∧
      ns'.seen = if ns.updateCB then ns.seen ++ calls else ns.seen) :
    Served (steps ++ [taken]) handles' ns' := by
  obtain ⟨early, handle, delivered, ⟨put, member, t, request, userdata, label, created, same⟩, stored, called,
    seen⟩ := served
  obtain ⟨handle', calls, stored', called', seen'⟩ := goes handle stored
  refine ⟨early, handle', delivered ++ calls, ⟨put, List.mem_append_left _ member, t, request, userdata, label, ?_⟩,
    ?_, ?_, ?_⟩
  · rw [cc, callback, size]
    exact ⟨created, same⟩
  · rw [cc]
    exact stored'
  · rw [called', called, List.append_assoc]
  · rw [seen', seen, callback]
    split <;> rfl

/-- A step that calls no namespace and keeps the handles. -/
theorem Served.kept (served : Served steps handles ns) (kept : handles' = handles) :
    Served (steps ++ [taken]) handles' ns := by
  apply served.more rfl rfl rfl
  intro handle stored
  refine ⟨handle, [], kept ▸ stored, (List.append_nil _).symm, ?_⟩
  rw [List.append_nil, ite_self]

/-- The update of a namespace's own handle. -/
theorem Served.install (served : Served steps handles ns) {id : Nat} {handle : NamespaceScopedCFGCenter Pri}
    {newMemStore : MemStorage Pri} {changes : List Str}
    (updated : handles' = handles.modify id fun handle => handle.updateCallback newMemStore changes)
    (own : ns.cc = id) (stored : handles[id]? = some handle) :
    Served (steps ++ [taken]) handles' ((handle.call newMemStore changes).elim ns ns.update) := by
  have called := handle.updateCallback_calls newMemStore changes
  have stored' : handles'[ns.cc]? = some (handle.updateCallback newMemStore changes) := by
    rw [updated, own, List.getElem?_modify_eq, stored]
    rfl
  cases calls : handle.call newMemStore changes with
  | none =>
      rw [calls, Option.toList_none] at called
      apply served.more rfl rfl rfl
      intro other here
      rw [own, stored, Option.some.injEq] at here
      refine ⟨_, [], stored', here ▸ called, ?_⟩
      rw [List.append_nil, ite_self]
  | some differ =>
      rw [calls, Option.toList_some] at called
      rw [Option.elim_some]
      apply served.more (show (ns.update differ).cc = ns.cc from rfl) rfl rfl
      intro other here
      rw [own, stored, Option.some.injEq] at here
      exact ⟨_, [differ], stored', here ▸ called, rfl⟩

theorem BindingStep.served (step : BindingStep crates s label s') (valid : s.Valid)
    (answered : ∀ t, (s.calls t).Answered s.core.center.handles (s.core.threads t))
    (served : ∀ ns ∈ s.namespaces, Served steps s.core.center.handles ns) :
    ∀ ns ∈ s'.namespaces, Served (steps ++ [⟨s, label, s'⟩]) s'.core.center.handles ns := by
  intro ns member
  cases step with
  | getNewID => exact (served ns member).kept rfl
  | unread => exact (served ns member).kept rfl
  | createNamespace _ _ step => exact (served ns member).kept (step_quiet step trivial)
  | refused _ _ step => exact (served ns member).kept (step_quiet step trivial)
  | returns _ step => exact (served ns member).kept (step_quiet step trivial)
  | returnsNull _ step => exact (served ns member).kept (step_quiet step trivial)
  | other quiet _ _ step => exact (served ns member).kept (step_quiet step quiet)
  | insert _ step =>
      obtain ⟨⟨added, -, filed⟩, -⟩ := step_insert step
      apply (served ns member).more rfl rfl rfl
      intro handle stored
      refine ⟨handle, [], ?_, (List.append_nil _).symm, ?_⟩
      · rw [filed, List.getElem?_append_left (List.getElem?_eq_some_iff.mp stored).1]
        exact stored
      · rw [List.append_nil, ite_self]
  | @put t request userdata id created =>
      rcases List.mem_append.mp member with earlier | last
      · exact (served ns earlier).kept rfl
      · rw [List.mem_singleton.mp last]
        have here := answered t
        rw [created] at here
        obtain ⟨handle, stored, gets⟩ := here
        refine ⟨handle, handle, [], ⟨_, List.mem_append_right _ (List.mem_singleton_self _), t, request, userdata,
          rfl, created, rfl, rfl, gets, stored⟩, stored, (List.append_nil _).symm, ?_⟩
        rw [ite_self]
        rfl
  | query =>
      obtain ⟨position, here⟩ := List.mem_iff_getElem?.mp member
      rw [List.getElem?_modify, Option.map_eq_map, Option.map_eq_some_iff] at here
      obtain ⟨before, here, rfl⟩ := here
      have earlier := served before (List.mem_of_getElem? here)
      split
      · apply earlier.more rfl rfl rfl
        intro handle stored
        refine ⟨handle, [], stored, (List.append_nil _).symm, ?_⟩
        rw [List.append_nil, ite_self]
      · exact earlier.kept rfl
  | @install t e name id newMemStore changes rest handle userdata core thread stored given step =>
      obtain ⟨place, here⟩ := List.mem_iff_getElem?.mp member
      rw [updateCbGo_get, Option.map_eq_some_iff] at here
      obtain ⟨before, here, rfl⟩ := here
      have earlier := served before (List.mem_of_getElem? here)
      have handles := step_install thread step
      by_cases own : before.cc = id
      · rw [if_pos ((valid.stored_cc given here).mpr own)]
        exact earlier.install handles own stored
      · rw [if_neg (mt (valid.stored_cc given here).mp own)]
        apply earlier.more rfl rfl rfl
        intro other stored
        refine ⟨other, [], ?_, (List.append_nil _).symm, ?_⟩
        · rw [handles, List.getElem?_modify_ne _ _ (Ne.symm own)]
          exact stored
        · rw [List.append_nil, ite_self]

end Served

def draws {σ : Type} (taken : Taken σ (Nat × BindingAction crates)) : Bool :=
  match taken.label.2 with
  | .getNewID _ => true
  | _ => false

theorem BindingStep.idGen {s s' : Binding Pri} {label : Nat × BindingAction crates}
    (step : BindingStep crates s label s') :
    s'.storage.idGen = if draws (.mk s label s') then s.storage.idGen + 1 else s.storage.idGen := by
  cases step <;> rfl

theorem binding_run {version : VersionItem} {steps : BindingSteps crates} {s : Binding Pri}
    (run : Run (BindingStep crates) (.start version) steps s) (few : steps.countP draws < 2 ^ 64) :
    s.storage.idGen.toNat = steps.countP draws ∧ s.Valid ∧
      (∀ t, (s.calls t).Answered s.core.center.handles (s.core.threads t)) ∧
      ∀ ns ∈ s.namespaces, Served steps s.core.center.handles ns := by
  induction run with
  | nil =>
      exact ⟨rfl, Binding.start_valid version, fun _ => trivial, fun _ member => absurd member List.not_mem_nil⟩
  | @snoc steps s s' label before step ih =>
      rw [List.countP_append, List.countP_singleton] at few ⊢
      obtain ⟨count, valid, answered, served⟩ := ih (by omega)
      refine ⟨?_, step.valid valid fun request asks => ?_, step.answered valid answered,
        step.served valid answered served⟩
      · rw [step.idGen]
        cases drawn : draws (.mk s label s') with
        | false => simpa using count
        | true =>
            rw [drawn, if_pos rfl] at few
            rw [if_pos rfl, if_pos rfl, UInt64.toNat_add, count, UInt64.toNat_one, Nat.mod_eq_of_lt few]
      · have drawn : draws (.mk s label s') = true := by
          unfold draws
          rw [asks]
        rw [drawn, if_pos rfl] at few
        rw [count]
        exact few

/-- While fewer than 2^64 numbers are drawn, the library's callbacks reach the namespaces
they belong to in every interleaving: a namespace has the handle that was asked for to
itself, and its callback was called, in order, with what the handle's was called with since
the namespace was put. -/
theorem callbacks_reach_namespace (crates : Crates Pri) (version : VersionItem) (steps : BindingSteps crates)
    (s : Binding Pri) (run : Run (BindingStep crates) (.start version) steps s)
    (few : steps.countP draws < 2 ^ 64) :
    (∀ ns ∈ s.namespaces, Served steps s.core.center.handles ns) ∧
      ∀ (place other : Nat) (ns ns' : Namespace Pri), s.namespaces[place]? = some ns →
        s.namespaces[other]? = some ns' → ns.cc = ns'.cc → place = other := by
  obtain ⟨-, valid, -, served⟩ := binding_run run few
  exact ⟨served, fun place other ns ns' here there same => valid.own_handle here there same⟩

/-! ### A call that comes before its namespace is put -/

def sampleRequest (name : GoString) : CreateRequest :=
  { namespaceName := name, notifyLevel := .notifyWithoutChangedKeysByGlobal, updateCB := true, cacheSize := 1 }

/-- The name is read up to its NUL. -/
theorem sampleRequest_read : (sampleRequest [47, 97, 47, 0, 98]).toStr = .ok ['/', 'a', '/'] :=
  toStr_utf8Bytes ['/', 'a', '/']

theorem iteration_pair {center : CFGCenterInner Pri} {ns ns' : Str} {id id' : Nat} (apart : ns ≠ ns')
    (both : center.namespaces = (Finmap.insert ns id ∅).insert ns' id') :
    center.Iteration [(ns, id), (ns', id')] := by
  refine ⟨by simp [apart], fun other found => ?_⟩
  rw [both, lookup_insert_eq, lookup_insert_eq]
  by_cases last : other = ns'
  · simpa [last, eq_comm] using fun same _ => absurd same apart
  · by_cases first : other = ns
    · simp [first, apart, eq_comm]
    · simp [first, last]

theorem BindingStep.asking {s : Binding Pri} (t : Nat) (request : CreateRequest) (idle : s.calls t = .idle) :
    BindingStep crates s (t, .getNewID request)
      { s with
        storage := s.storage.getNewID.2
        calls := Function.update s.calls t (.named request s.storage.getNewID.1) } :=
  .getNewID idle

theorem BindingStep.plain {s : Binding Pri} {t : Nat} {action : Action crates} {next : Thread Pri}
    {center : CFGCenterInner Pri} (moves : Moves crates s.core.center (s.core.threads t) action next center)
    (permitted : action.Permitted s.core.holder) (quiet : Quiet action) (creates : ¬ Creates action)
    (stays : action ≠ .release .currentVersion) :
    BindingStep crates s (t, .core action)
      { s with
        core :=
          { center, holder := action.relock t s.core.holder
            threads := Function.update s.core.threads t next } } :=
  .other quiet creates (fun returns => absurd returns stays) (.run moves permitted)

/-- Two namespaces are created, and an event is handled before the second one is put. -/
theorem sample_called : ∃ steps s first second, Run (BindingStep sampleCrates) (.start sampleVersion) steps s ∧
    steps.countP draws < 2 ^ 64 ∧ s.namespaces = [first, second] ∧ first.seen.length = 1 ∧ second.seen = [] ∧
    s.core.center.handles.map (fun handle => handle.called.length) = [1, 1] := by
  have empty : Run (BindingStep sampleCrates) (.start sampleVersion) [] (.start sampleVersion) := .nil
  have loaded : ∀ rest, sampleAnswers.memStorageNew ('/' :: rest) sampleVersion =
    .ok { version := sampleVersion, indices := .empty } := fun _ => rfl
  have named := empty.snoc (.asking 0 (sampleRequest [47]) rfl)
  have read : (sampleRequest [47]).toStr = .ok ['/'] := toStr_utf8Bytes ['/']
  have valid : CFGCenterInner.validNamespace ['/'] = true := rfl
  have creating := named.snoc (.createNamespace (t := 0) rfl read (.run (.callCreate valid) trivial) valid)
  have locked := creating.snoc (.plain (t := 0) .create rfl trivial nofun nofun)
  have loads := locked.snoc (.plain (t := 0) (.createLoad (loaded [])) trivial trivial nofun nofun)
  have filing := loads.snoc (.plain (t := 0) .createLock rfl trivial nofun nofun)
  have filed := filing.snoc (.insert (t := 0) rfl (.run .createInsert trivial))
  have unlocked := filed.snoc (.plain (t := 0) .createUnlock trivial trivial nofun nofun)
  have created := unlocked.snoc (.returns (t := 0) rfl (.run .createReturn trivial))
  have put := created.snoc (.put (t := 0) rfl)
  have named' := put.snoc (.asking 2 (sampleRequest [47, 97, 47, 0, 98]) rfl)
  have valid' : CFGCenterInner.validNamespace ['/', 'a', '/'] = true := rfl
  have creating' := named'.snoc
    (.createNamespace (t := 2) rfl sampleRequest_read (.run (.callCreate valid') trivial) valid')
  have locked' := creating'.snoc (.plain (t := 2) .create rfl trivial nofun nofun)
  have loads' := locked'.snoc (.plain (t := 2) (.createLoad (loaded ['a', '/'])) trivial trivial nofun nofun)
  have filing' := loads'.snoc (.plain (t := 2) .createLock rfl trivial nofun nofun)
  have filed' := filing'.snoc (.insert (t := 2) rfl (.run .createInsert trivial))
  have unlocked' := filed'.snoc (.plain (t := 2) .createUnlock trivial trivial nofun nofun)
  have created' := unlocked'.snoc (.returns (t := 2) rfl (.run .createReturn trivial))
  have called := created'.snoc (.plain (t := 1) (.callUpdate (e := sampleEvent)) trivial trivial nofun nofun)
  have enters := called.snoc (.plain (t := 1) .update rfl trivial nofun nofun)
  have loops := enters.snoc
    (.plain (t := 1) (.updateLock (iteration_pair (by decide) rfl)) rfl trivial nofun nofun)
  have changed : ∀ rest, CFGCenterInner.loadChanged sampleAnswers .notifyWithoutChangedKeysByGlobal sampleVersion
    sampleEvent.newVersion ('/' :: rest) = some ({ version := sampleEvent.newVersion, indices := .empty }, []) :=
      fun _ => rfl
  have reads := loops.snoc (.plain (t := 1) (.updateLoad rfl (changed [])) trivial trivial nofun nofun)
  have installs := reads.snoc (.install (t := 1) rfl rfl rfl (.run .updateInstall trivial))
  have reads' := installs.snoc (.plain (t := 1) (.updateLoad rfl (changed ['a', '/'])) trivial trivial nofun nofun)
  have installs' := reads'.snoc (.install (t := 1) rfl rfl rfl (.run .updateInstall trivial))
  have put' := installs'.snoc (.put (t := 2) rfl)
  exact ⟨_, _, _, _, put', List.countP_le_length.trans_lt (by simp), rfl, rfl, rfl, rfl⟩

/-- The namespace that was put late has not seen the call, and the other one has. -/
theorem callbacks_reach_namespace_sample : ∃ steps s first second,
    Run (BindingStep sampleCrates) (.start sampleVersion) steps s ∧ s.namespaces = [first, second] ∧
    first.seen.length = 1 ∧ second.seen = [] ∧ first.cc ≠ second.cc ∧
    s.core.center.handles.map (fun handle => handle.called.length) = [1, 1] ∧
    Served steps s.core.center.handles first ∧ Served steps s.core.center.handles second := by
  obtain ⟨steps, s, first, second, run, few, both, seen, unseen, called⟩ := sample_called
  obtain ⟨served, apart⟩ := callbacks_reach_namespace sampleCrates sampleVersion steps s run few
  refine ⟨steps, s, first, second, run, both, seen, unseen, fun same => ?_, called,
    served first (by simp [both]), served second (by simp [both])⟩
  have zero : (0 : Nat) = 1 := apart 0 1 first second (by rw [both]; rfl) (by rw [both]; rfl) same
  cases zero

end Eafcc.Go.Registry
