import Mathlib.Data.List.Nodup

namespace Pool

/-! # Pools of objects that are used again

A client takes an object that is not in use, or a new one when it finds none, works on it and
gives it back.  The pool may forget the objects that are not in use.
-/

variable {κ α : Type}

/-- The objects by their addresses, of which those below `made` exist, and the addresses of
those that are in the pool. -/
structure State (α : Type) where
  objects : Nat → α
  made : Nat
  idle : List Nat

namespace State

/-- A new object, at the first address that had none. -/
def create (pool : State α) (object : α) : State α :=
  { pool with objects := Function.update pool.objects pool.made object, made := pool.made + 1 }

/-- The object leaves the pool, for a client or for good. -/
def take (pool : State α) (address : Nat) : State α :=
  { pool with idle := pool.idle.erase address }

def use (pool : State α) (address : Nat) (work : α → α) : State α :=
  { pool with objects := Function.update pool.objects address (work (pool.objects address)) }

def give (pool : State α) (address : Nat) : State α :=
  { pool with idle := address :: pool.idle }

end State

variable {pool : State α} {held : κ → Option Nat} {client other : κ} {address : Nat} {object : α}
  {work : α → α}

@[simp] theorem create_objects_made : (pool.create object).objects pool.made = object :=
  Function.update_self ..

@[simp] theorem use_objects : (pool.use address work).objects address = work (pool.objects address) :=
  Function.update_self ..

theorem create_objects_of_ne {found : Nat} (other : found ≠ pool.made) :
    (pool.create object).objects found = pool.objects found :=
  Function.update_of_ne other ..

theorem use_objects_of_ne {found : Nat} (other : found ≠ address) :
    (pool.use address work).objects found = pool.objects found :=
  Function.update_of_ne other ..

@[simp] theorem take_objects : (pool.take address).objects = pool.objects := rfl

/-! ## Who owns an object -/

/-- Each object is in the pool once, or one client has it, or it is forgotten. -/
structure Owned (pool : State α) (held : κ → Option Nat) : Prop where
  nodup : pool.idle.Nodup
  idle_made : ∀ address ∈ pool.idle, address < pool.made
  held_made : ∀ client address, held client = some address → address < pool.made
  apart : ∀ client other address, held client = some address → held other = some address →
    client = other
  not_idle : ∀ client address, held client = some address → address ∉ pool.idle

theorem owned_empty (objects : Nat → α) :
    Owned { objects, made := 0, idle := [] } fun _ : κ => none where
  nodup := List.nodup_nil
  idle_made := by simp
  held_made := by simp
  apart := by simp
  not_idle := by simp

theorem Owned.use (owned : Owned pool held) : Owned (pool.use address work) held :=
  { owned with }

theorem Owned.forget (owned : Owned pool held) : Owned (pool.take address) held where
  nodup := owned.nodup.erase address
  idle_made := fun other member => owned.idle_made other (List.mem_of_mem_erase member)
  held_made := owned.held_made
  apart := owned.apart
  not_idle := fun client other holds member =>
    owned.not_idle client other holds (List.mem_of_mem_erase member)

section Holders

variable [DecidableEq κ]

/-- What a client has after one of them got or gave back an object. -/
theorem update_eq_some {found : Option Nat} :
    Function.update held client found other = some address ↔
      (other = client ∧ found = some address) ∨ (other ≠ client ∧ held other = some address) := by
  by_cases same : other = client
  · subst same
    simp
  · simp [same]

/-- A client may get an object that is neither in the pool nor with another one. -/
theorem Owned.hold (owned : Owned pool held) (client : κ) (made : address < pool.made)
    (fresh : address ∉ pool.idle) (free : ∀ other, held other ≠ some address) :
    Owned pool (Function.update held client (some address)) where
  nodup := owned.nodup
  idle_made := owned.idle_made
  held_made := by
    intro other found holds
    rcases update_eq_some.mp holds with ⟨-, same⟩ | ⟨-, holds⟩
    · exact (Option.some.inj same) ▸ made
    · exact owned.held_made other found holds
  apart := by
    intro first second found holds holds'
    rcases update_eq_some.mp holds with ⟨here, same⟩ | ⟨-, holds⟩ <;>
      rcases update_eq_some.mp holds' with ⟨here', same'⟩ | ⟨-, holds'⟩
    · exact here.trans here'.symm
    · exact absurd (holds'.trans same.symm) (free second)
    · exact absurd (holds.trans same'.symm) (free first)
    · exact owned.apart first second found holds holds'
  not_idle := by
    intro other found holds
    rcases update_eq_some.mp holds with ⟨-, same⟩ | ⟨-, holds⟩
    · exact (Option.some.inj same) ▸ fresh
    · exact owned.not_idle other found holds

theorem Owned.create (owned : Owned pool held) (client : κ) (object : α) :
    Owned (pool.create object) (Function.update held client (some pool.made)) := by
  have created : Owned (pool.create object) held :=
    { owned with
      idle_made := fun address member => Nat.lt_succ_of_lt (owned.idle_made address member)
      held_made := fun other address holds =>
        Nat.lt_succ_of_lt (owned.held_made other address holds) }
  refine created.hold client (Nat.lt_succ_self _) (fun member => ?_) fun other holds => ?_
  · exact Nat.lt_irrefl _ (owned.idle_made _ member)
  · exact Nat.lt_irrefl _ (owned.held_made other _ holds)

theorem Owned.take (owned : Owned pool held) (client : κ) (member : address ∈ pool.idle) :
    Owned (pool.take address) (Function.update held client (some address)) := by
  refine owned.forget.hold client (owned.idle_made address member) ?_ fun other holds => ?_
  · exact owned.nodup.not_mem_erase
  · exact owned.not_idle other address holds member

theorem Owned.give (owned : Owned pool held) (holds : held client = some address) :
    Owned (pool.give address) (Function.update held client none) where
  nodup := List.nodup_cons.mpr ⟨owned.not_idle client address holds, owned.nodup⟩
  idle_made := by
    intro found member
    rcases List.mem_cons.mp member with rfl | member
    · exact owned.held_made client found holds
    · exact owned.idle_made found member
  held_made := by
    intro other found holds'
    rcases update_eq_some.mp holds' with ⟨-, none⟩ | ⟨-, holds'⟩
    · cases none
    · exact owned.held_made other found holds'
  apart := by
    intro first second found holds₁ holds₂
    rcases update_eq_some.mp holds₁ with ⟨-, none⟩ | ⟨-, holds₁⟩
    · cases none
    · rcases update_eq_some.mp holds₂ with ⟨-, none⟩ | ⟨-, holds₂⟩
      · cases none
      · exact owned.apart first second found holds₁ holds₂
  not_idle := by
    intro other found holds' member
    rcases update_eq_some.mp holds' with ⟨-, none⟩ | ⟨apart, holds'⟩
    · cases none
    · rcases List.mem_cons.mp member with rfl | member
      · exact apart (owned.apart other client found holds' holds)
      · exact owned.not_idle other found holds' member

end Holders

/-! ## What a client leaves alone -/

/-- A new object is not one that a client has. -/
theorem Owned.create_objects (owned : Owned pool held) (holds : held client = some address) :
    (pool.create object).objects address = pool.objects address :=
  create_objects_of_ne (Nat.ne_of_lt (owned.held_made client address holds))

/-- Work on an object does not change what another client has. -/
theorem Owned.use_objects {found : Nat} (owned : Owned pool held) (holds : held client = some address)
    (holds' : held other = some found) (apart : other ≠ client) :
    (pool.use address work).objects found = pool.objects found := by
  refine use_objects_of_ne fun same => ?_
  subst same
  exact apart (owned.apart other client found holds' holds)

/-! ## Objects that are given back as they were made -/

/-- The objects in the pool have a property. -/
def Clean (P : α → Prop) (pool : State α) : Prop := ∀ address ∈ pool.idle, P (pool.objects address)

variable {P : α → Prop}

theorem Clean.create (clean : Clean P pool) (owned : Owned pool held) (object : α) :
    Clean P (pool.create object) := by
  intro address member
  rw [create_objects_of_ne (Nat.ne_of_lt (owned.idle_made address member))]
  exact clean address member

theorem Clean.take (clean : Clean P pool) : Clean P (pool.take address) :=
  fun other member => clean other (List.mem_of_mem_erase member)

theorem Clean.use (clean : Clean P pool) (owned : Owned pool held) (holds : held client = some address) :
    Clean P (pool.use address work) := by
  intro found member
  have other : found ≠ address := by
    intro same
    subst same
    exact owned.not_idle client found holds member
  rw [use_objects_of_ne other]
  exact clean found member

theorem Clean.give (clean : Clean P pool) (good : P (pool.objects address)) :
    Clean P (pool.give address) :=
  List.forall_mem_cons.mpr ⟨good, clean⟩

end Pool
