import Eafcc.CfgCenter.UpdateHistory
import Eafcc.Ffi

namespace Eafcc.Ffi.Handles

open Eafcc.Model Eafcc.Storage Eafcc.CfgCenter Transition

/-! # The handles that the library shares with C

The map of namespaces and C have strong references to a handle, C and the callback of the
backend's watcher to the center.  What is shared is dropped with its last reference.
-/

variable {Pri : Type} {crates : Crates Pri}

/-- The strong counts of the handles and of the center, and the pointers of C, which hold
a reference each. A handle's pointer is among them from when the handle is filed. -/
structure Shared (Pri : Type) where
  core : State Pri
  strong : Nat → Nat
  held : List Nat
  centerStrong : Nat
  centerHeld : Bool

/-- The center after `new_config_center_client`. -/
def Shared.start (version : VersionItem) : Shared Pri where
  core := .start version
  strong _ := 0
  held := []
  centerStrong := 2
  centerHeld := true

/-- The drop of a reference, if there is one. -/
def dropRef (strong : Nat → Nat) : Option Nat → Nat → Nat
  | some id => Function.update strong id (strong id - 1)
  | none => strong

inductive SharedAction (crates : Crates Pri) where
  | core (action : Action crates)
  | getConfig (id : Nat)
  | freeNamespace (id : Nat)
  | freeConfigCenter

/-- The actions of the library that take and drop no references. C cannot look a namespace up. -/
def Plain : Action crates → Prop
  | .call (.createNamespace ..) => False
  | .call (.getNamespace _) => False
  | .insert .. => False
  | _ => True

/-- The thread runs a call of C on the center. -/
def Creating : Thread Pri → Prop
  | .create .. | .createLoad .. | .createLock _ | .createInsert _ | .createUnlock | .createReturn => True
  | _ => False

/-- A step of the library, or of a C program that uses what it holds and frees it once. -/
inductive SharedStep (crates : Crates Pri) : Shared Pri → Nat × SharedAction crates → Shared Pri → Prop
  | create {s : Shared Pri} {t : Nat} {ns : Str} {level : UpdateNotifyLevel} {callback : Bool}
      {core : State Pri} :
      s.centerHeld = true → CfgCenter.Step crates s.core (t, .call (.createNamespace ns level callback)) core →
      SharedStep crates s (t, .core (.call (.createNamespace ns level callback))) { s with core }
  -- The map drops the handle that it had for the namespace.
  | insert {s : Shared Pri} {t : Nat} {ns : Str} {id : Nat} {core : State Pri} :
      CfgCenter.Step crates s.core (t, .insert ns id) core →
      SharedStep crates s (t, .core (.insert ns id))
        { s with
          core
          strong := Function.update (dropRef s.strong (s.core.center.namespaces.lookup ns)) id 2
          held := s.held ++ [id] }
  | plain {s : Shared Pri} {t : Nat} {action : Action crates} {core : State Pri} :
      Plain action → CfgCenter.Step crates s.core (t, action) core →
      SharedStep crates s (t, .core action) { s with core }
  | getConfig {s : Shared Pri} {t id : Nat} : id ∈ s.held → SharedStep crates s (t, .getConfig id) s
  | freeNamespace {s : Shared Pri} {t id : Nat} :
      id ∈ s.held →
      SharedStep crates s (t, .freeNamespace id)
        { s with strong := dropRef s.strong (some id), held := s.held.erase id }
  | freeConfigCenter {s : Shared Pri} {t : Nat} :
      s.centerHeld = true → (∀ u, ¬ Creating (s.core.threads u)) →
      SharedStep crates s (t, .freeConfigCenter)
        { s with centerStrong := s.centerStrong - 1, centerHeld := false }

/-- The references that the map has to a handle. -/
def filed (center : CFGCenterInner Pri) (id : Nat) : Nat :=
  match (center.handles.map NamespaceScopedCFGCenter.namespaceName)[id]? with
  | some ns => if center.namespaces.lookup ns = some id then 1 else 0
  | none => 0

/-- The action reads, changes or drops a reference to the handle. -/
def Touches (center : CFGCenterInner Pri) (id : Nat) : SharedAction crates → Prop
  | .core (.insert ns _) => center.namespaces.lookup ns = some id
  | .core (.load _ visited _ _) => visited = id
  | .core (.install _ visited _ _) => visited = id
  | .core _ => False
  | .getConfig held => held = id
  | .freeNamespace held => held = id
  | .freeConfigCenter => False

/-- The handles that a thread of the library goes on to use. -/
def uses : Thread Pri → List Nat
  | .updateLoop _ rest => rest.map Prod.snd
  | .updateInstall _ entry _ _ rest => entry.2 :: rest.map Prod.snd
  | _ => []

section Filed

variable {center center' : CFGCenterInner Pri} {thread next : Thread Pri} {action : Action crates}
  {handle : NamespaceScopedCFGCenter Pri} {ns : Str} {id : Nat}

theorem filed_of_lookup (found : center.namespaces.lookup ns = some id) : filed center id = 1 := by
  obtain ⟨handle, stored, named⟩ := center.filed ns id found
  simp [filed, stored, named, found]

theorem filed_of_unlisted (unlisted : ∀ ns, center.namespaces.lookup ns ≠ some id) : filed center id = 0 := by
  unfold filed
  split
  · rw [if_neg (unlisted _)]
  · rfl

theorem filed_congr (same : ∀ ns, center'.namespaces.lookup ns = some id ↔ center.namespaces.lookup ns = some id) :
    filed center' id = filed center id := by
  by_cases listed : ∃ ns, center.namespaces.lookup ns = some id
  · obtain ⟨ns, found⟩ := listed
    rw [filed_of_lookup found, filed_of_lookup ((same ns).mpr found)]
  · have unlisted : ∀ ns, center.namespaces.lookup ns ≠ some id := fun ns found => listed ⟨ns, found⟩
    rw [filed_of_unlisted unlisted, filed_of_unlisted fun ns => (same ns).not.mpr (unlisted ns)]

/-- A handle has its place in the map of the center for its own. -/
theorem lookup_lt (found : center.namespaces.lookup ns = some id) : id < center.handles.length := by
  obtain ⟨handle, stored, -⟩ := center.filed ns id found
  exact (List.getElem?_eq_some_iff.mp stored).1

theorem filed_insert_new : filed (center.insert handle) center.handles.length = 1 :=
  filed_of_lookup (Finmap.lookup_insert center.namespaces)

theorem filed_insert_replaced (found : center.namespaces.lookup handle.namespaceName = some id) :
    filed (center.insert handle) id = 0 := by
  apply filed_of_unlisted
  intro ns listed
  by_cases same : ns = handle.namespaceName
  · rw [same, CFGCenterInner.insert, Finmap.lookup_insert, Option.some.injEq] at listed
    exact absurd (lookup_lt found) (listed ▸ Nat.lt_irrefl _)
  · rw [CFGCenterInner.insert, Finmap.lookup_insert_of_ne _ same] at listed
    exact same (center.filed_unique listed found)

theorem filed_insert_other (earlier : id ≠ center.handles.length)
    (other : center.namespaces.lookup handle.namespaceName ≠ some id) :
    filed (center.insert handle) id = filed center id := by
  apply filed_congr
  intro ns
  by_cases same : ns = handle.namespaceName
  · rw [same, CFGCenterInner.insert, Finmap.lookup_insert, Option.some.injEq]
    exact ⟨fun last => absurd last.symm earlier, fun found => absurd found other⟩
  · rw [CFGCenterInner.insert, Finmap.lookup_insert_of_ne _ same]

/-- A step other than an insertion leaves the map as it is. -/
theorem moves_namespaces (moves : Moves crates center thread action next center')
    (keeps : ∀ ns id, action ≠ .insert ns id) :
    center'.namespaces = center.namespaces ∧ center'.handles.length = center.handles.length := by
  cases moves with
  | createInsert => exact absurd rfl (keeps _ _)
  | updateInstall => exact ⟨rfl, List.length_modify ..⟩
  | _ => exact ⟨rfl, rfl⟩

end Filed

section Steps

variable {s s' : Shared Pri} {label : Nat × SharedAction crates} {id : Nat}

theorem step_namespaces {core core' : State Pri} {t : Nat} {action : Action crates}
    (step : CfgCenter.Step crates core (t, action) core') (keeps : ∀ ns id, action ≠ .insert ns id) :
    (∀ id, filed core'.center id = filed core.center id) ∧
      core'.center.handles.length = core.center.handles.length := by
  cases step with
  | run moves permitted =>
      obtain ⟨same, sized⟩ := moves_namespaces moves keeps
      exact ⟨fun id => filed_congr fun ns => by rw [same], sized⟩

/-- The counts are those of the references that there are. -/
structure Shared.Sound (s : Shared Pri) : Prop where
  counts : ∀ id, s.strong id = s.held.count id + filed s.core.center id
  made : ∀ id ∈ s.held, id < s.core.center.handles.length
  center : s.centerStrong = (if s.centerHeld then 1 else 0) + 1

theorem Shared.start_sound (version : VersionItem) : (Shared.start version : Shared Pri).Sound where
  counts _ := rfl
  made _ member := by cases member
  center := rfl

theorem Shared.Sound.unmade (sound : s.Sound) (beyond : s.core.center.handles.length ≤ id) : s.held.count id = 0 :=
  List.count_eq_zero.mpr fun member => absurd (sound.made id member) (Nat.not_lt.mpr beyond)

/-- The reference of the map to a replaced handle is dropped. -/
theorem Shared.Sound.insert (sound : s.Sound) (handle : NamespaceScopedCFGCenter Pri) (id : Nat) :
    Function.update (dropRef s.strong (s.core.center.namespaces.lookup handle.namespaceName))
        s.core.center.handles.length 2 id =
      (s.held ++ [s.core.center.handles.length]).count id + filed (s.core.center.insert handle) id := by
  have before := sound.counts id
  rw [List.count_append]
  by_cases last : id = s.core.center.handles.length
  · rw [last, Function.update_self, filed_insert_new, sound.unmade (Nat.le_refl _), List.count_singleton_self]
  · rw [Function.update_of_ne last, List.count_singleton, beq_false_of_ne (Ne.symm last)]
    cases found : s.core.center.namespaces.lookup handle.namespaceName with
    | none =>
        rw [filed_insert_other last (by rw [found]; exact nofun)]
        exact before
    | some replaced =>
        by_cases own : id = replaced
        · subst own
          rw [dropRef, Function.update_self, filed_insert_replaced found, before, filed_of_lookup found]
          rfl
        · rw [dropRef, Function.update_of_ne own, filed_insert_other last, before]
          · rfl
          · rw [found]
            exact fun same => own (Option.some.inj same).symm

theorem SharedStep.sound (step : SharedStep crates s label s') (sound : s.Sound) : s'.Sound := by
  cases step with
  | create _ step =>
      obtain ⟨same, sized⟩ := step_namespaces step nofun
      exact ⟨fun id => (sound.counts id).trans (by rw [same]), fun id member => sized ▸ sound.made id member,
        sound.center⟩
  | plain plain step =>
      obtain ⟨same, sized⟩ := step_namespaces step fun ns id inserts => by
        rw [inserts] at plain
        cases plain
      exact ⟨fun id => (sound.counts id).trans (by rw [same]), fun id member => sized ▸ sound.made id member,
        sound.center⟩
  | @insert t ns id core step =>
      cases step with
      | run moves permitted =>
          obtain ⟨handle, -, rfl, rfl, rfl, -⟩ := moves.inserts
          refine ⟨sound.insert handle, fun id member => ?_, sound.center⟩
          change id < (s.core.center.handles ++ [handle]).length
          rw [List.length_append, List.length_singleton]
          rcases List.mem_append.mp member with earlier | last
          · exact Nat.lt_succ_of_lt (sound.made id earlier)
          · rw [List.mem_singleton.mp last]
            exact Nat.lt_succ_self _
  | getConfig held => exact sound
  | @freeNamespace t freed held =>
      refine ⟨fun id => ?_, fun id member => sound.made id (List.mem_of_mem_erase member), sound.center⟩
      have before := sound.counts id
      by_cases own : id = freed
      · have some := List.count_pos_iff.mpr held
        subst own
        simp only [dropRef, Function.update_self, List.count_erase_self]
        omega
      · simp only [dropRef, Function.update_of_ne own, List.count_erase_of_ne own]
        exact before
  | freeConfigCenter held idle =>
      have before := sound.center
      rw [held, if_pos rfl] at before
      refine ⟨sound.counts, sound.made, ?_⟩
      simp [before]

/-! ## What is freed stays freed -/

def Shared.Freed (s : Shared Pri) (id : Nat) : Prop := id < s.core.center.handles.length ∧ s.strong id = 0

theorem dropRef_zero {strong : Nat → Nat} (zero : strong id = 0) (dropped : Option Nat) :
    dropRef strong dropped id = 0 := by
  cases dropped with
  | none => exact zero
  | some other =>
      by_cases own : id = other
      · rw [dropRef, own, Function.update_self, ← own, zero]
      · rw [dropRef, Function.update_of_ne own, zero]

theorem SharedStep.freed (step : SharedStep crates s label s') (freed : s.Freed id) : s'.Freed id := by
  obtain ⟨made, zero⟩ := freed
  cases step with
  | create _ step =>
      obtain ⟨-, sized⟩ := step_namespaces step nofun
      exact ⟨sized ▸ made, zero⟩
  | plain plain step =>
      obtain ⟨-, sized⟩ := step_namespaces step fun ns id inserts => by
        rw [inserts] at plain
        cases plain
      exact ⟨sized ▸ made, zero⟩
  | insert step =>
      cases step with
      | run moves permitted =>
          obtain ⟨handle, -, rfl, rfl, rfl, -⟩ := moves.inserts
          refine ⟨?_, ?_⟩
          · change id < (s.core.center.handles ++ [handle]).length
            rw [List.length_append]
            exact Nat.lt_add_right _ made
          · exact (Function.update_of_ne made.ne _ _).trans (dropRef_zero zero _)
  | getConfig _ => exact ⟨made, zero⟩
  | freeNamespace _ => exact ⟨made, dropRef_zero zero (some _)⟩
  | freeConfigCenter _ _ => exact ⟨made, zero⟩

/-! ## The locks of the library -/

theorem SharedStep.valid (step : SharedStep crates s label s') (valid : s.core.Valid crates) :
    s'.core.Valid crates := by
  cases step with
  | create _ step | plain _ step | insert step => exact step.valid valid
  | getConfig _ | freeNamespace _ | freeConfigCenter _ _ => exact valid

/-- The map has the handles that an update goes on to use. -/
theorem uses_filed {core : State Pri} (valid : core.Valid crates) {t : Nat} (member : id ∈ uses (core.threads t)) :
    filed core.center id = 1 := by
  have working := valid.working t
  generalize core.threads t = thread at working member
  cases thread with
  | updateLoop e rest =>
      obtain ⟨entry, listed, rfl⟩ := List.mem_map.mp member
      exact filed_of_lookup (working.2 entry listed)
  | updateInstall e entry newMemStore changes rest =>
      rcases List.mem_cons.mp member with same | later
      · rw [same]
        exact filed_of_lookup (working.1.2 entry (List.mem_cons_self ..))
      · obtain ⟨other, listed, rfl⟩ := List.mem_map.mp later
        exact filed_of_lookup (working.1.2 other (List.mem_cons_of_mem _ listed))
  | _ => cases member

theorem uses_of_step {core core' : State Pri} {t : Nat} {action : Action crates}
    (step : CfgCenter.Step crates core (t, action) core')
    (visits : (∃ ns e answers, action = .load ns id e answers) ∨ ∃ ns e newMemStore, action = .install ns id e newMemStore) :
    id ∈ uses (core.threads t) := by
  cases step with
  | run moves permitted =>
      generalize core.threads t = thread at moves
      rcases visits with ⟨ns, e, answers, rfl⟩ | ⟨ns, e, newMemStore, rfl⟩
      · cases moves <;> exact List.mem_cons_self ..
      · cases moves
        exact List.mem_cons_self ..

/-- What a step touches is there. -/
theorem SharedStep.touches (step : SharedStep crates s label s') (sound : s.Sound) (valid : s.core.Valid crates)
    (touches : Touches s.core.center id label.2) : 0 < s.strong id := by
  have counts := sound.counts id
  have of_held : id ∈ s.held → 0 < s.strong id := fun held => by
    have some := List.count_pos_iff.mpr held
    omega
  have of_filed : filed s.core.center id = 1 → 0 < s.strong id := by omega
  cases step with
  | create _ _ => cases touches
  | insert _ => exact of_filed (filed_of_lookup touches)
  | @plain t action core plain step =>
      apply of_filed
      cases action with
      | insert _ _ => cases plain
      | load ns visited e answers =>
          cases touches
          exact uses_filed valid (uses_of_step step (.inl ⟨ns, e, answers, rfl⟩))
      | install ns visited e newMemStore =>
          cases touches
          exact uses_filed valid (uses_of_step step (.inr ⟨ns, e, newMemStore, rfl⟩))
      | _ => cases touches
  | getConfig held => exact of_held (touches ▸ held)
  | freeNamespace held => exact of_held (touches ▸ held)
  | freeConfigCenter _ _ => cases touches

end Steps

section Run

variable {version : VersionItem} {steps : List (Taken (Shared Pri) (Nat × SharedAction crates))} {s : Shared Pri}

/-- The counts are sound in every state, and what the steps touch is there. -/
theorem shared_run (run : Run (SharedStep crates) (.start version) steps s) :
    (s.Sound ∧ s.core.Valid crates) ∧
      ∀ taken ∈ steps, ∀ id, Touches taken.before.core.center id taken.label.2 → 0 < taken.before.strong id :=
  run.forall_of (fun s => s.Sound ∧ s.core.Valid crates) (H := fun _ => True) (fun _ _ => trivial)
    ⟨Shared.start_sound version, State.start_valid crates version⟩
    (fun _ _ _ both step _ => ⟨step.sound both.1, step.valid both.2⟩)
    fun _ _ _ both step _ _ touches => step.touches both.1 both.2 touches

theorem freed_run (run : Run (SharedStep crates) (.start version) steps s) :
    ∀ taken ∈ steps, ∀ id, taken.before.Freed id → s.Freed id := by
  induction run with
  | nil => exact fun _ member => absurd member List.not_mem_nil
  | snoc before step ih =>
      rw [List.forall_mem_append, List.forall_mem_singleton]
      exact ⟨fun taken member id freed => step.freed (ih taken member id freed), fun id freed => step.freed freed⟩

end Run

/-- In every interleaving of a C program that uses and frees only what it holds with the
updates of the center, a handle lives exactly as long as C or the map has it: no step
touches one that was dropped, which stays so, and the center is never dropped. -/
theorem handles_live (crates : Crates Pri) (version : VersionItem)
    (steps : List (Taken (Shared Pri) (Nat × SharedAction crates))) (s : Shared Pri)
    (run : Run (SharedStep crates) (.start version) steps s) :
    (∀ id, 0 < s.strong id ↔ id ∈ s.held ∨ ∃ ns, s.core.center.namespaces.lookup ns = some id) ∧
    (∀ taken ∈ steps, ∀ id, Touches taken.before.core.center id taken.label.2 → 0 < taken.before.strong id) ∧
    (∀ taken ∈ steps, ∀ id, taken.before.Freed id → s.Freed id) ∧ 0 < s.centerStrong := by
  obtain ⟨⟨sound, -⟩, touched⟩ := shared_run run
  refine ⟨fun id => ?_, touched, freed_run run, ?_⟩
  · have counts := sound.counts id
    rw [counts, ← List.count_pos_iff]
    by_cases listed : ∃ ns, s.core.center.namespaces.lookup ns = some id
    · obtain ⟨ns, found⟩ := listed
      rw [filed_of_lookup found]
      exact ⟨fun _ => .inr ⟨ns, found⟩, fun _ => Nat.succ_pos _⟩
    · rw [filed_of_unlisted fun ns found => listed ⟨ns, found⟩]
      exact ⟨fun counted => .inl counted, fun has => has.resolve_right listed⟩
  · rw [sound.center]
    exact Nat.succ_pos _

/-! ### A handle that C has freed and the map still has -/

theorem SharedStep.moves {s : Shared Pri} {t : Nat} {action : Action crates} {next : Thread Pri}
    {center : CFGCenterInner Pri} (moves : Moves crates s.core.center (s.core.threads t) action next center)
    (permitted : action.Permitted s.core.holder) (plain : Plain action) :
    SharedStep crates s (t, .core action)
      { s with
        core :=
          { center, holder := action.relock t s.core.holder
            threads := Function.update s.core.threads t next } } :=
  .plain plain (.run moves permitted)

theorem sample_freed : ∃ steps s, Run (SharedStep sampleCrates) (.start sampleVersion) steps s ∧ s.held = [] ∧
    s.core.center.namespaces.lookup ['/'] = some 0 := by
  have empty : Run (SharedStep sampleCrates) (.start sampleVersion) [] (.start sampleVersion) := .nil
  have valid : CFGCenterInner.validNamespace ['/'] = true := rfl
  have begins : Moves sampleCrates (.new sampleVersion) .idle
    (.call (.createNamespace ['/'] .notifyWithoutChangedKeysByGlobal false)) _ _ := .callCreate valid
  have creating := empty.snoc (.create (t := 0) rfl (.run begins trivial))
  have loaded : sampleAnswers.memStorageNew ['/'] sampleVersion =
    .ok { version := sampleVersion, indices := .empty } := rfl
  have locked := creating.snoc (.moves (t := 0) .create rfl trivial)
  have loads := locked.snoc (.moves (t := 0) (.createLoad loaded) trivial trivial)
  have filing := loads.snoc (.moves (t := 0) .createLock rfl trivial)
  have filed := filing.snoc (.insert (t := 0) (.run .createInsert trivial))
  have unlocked := filed.snoc (.moves (t := 0) .createUnlock trivial trivial)
  have created := unlocked.snoc (.moves (t := 0) .createReturn trivial trivial)
  have held : (0 : Nat) ∈ [0] := List.mem_singleton_self _
  have freed := created.snoc (.freeNamespace (t := 0) held)
  exact ⟨_, _, freed, rfl, Finmap.lookup_insert _⟩

theorem handles_live_sample : ∃ steps s, Run (SharedStep sampleCrates) (.start sampleVersion) steps s ∧
    s.held = [] ∧ 0 < s.strong 0 ∧ 0 < s.centerStrong := by
  obtain ⟨steps, s, run, freed, found⟩ := sample_freed
  obtain ⟨live, -, -, center⟩ := handles_live sampleCrates sampleVersion steps s run
  exact ⟨steps, s, run, freed, (live 0).mpr (.inr ⟨_, found⟩), center⟩

end Eafcc.Ffi.Handles
