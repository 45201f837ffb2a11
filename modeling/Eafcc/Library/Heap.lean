import Mathlib.Data.Finmap
import Mathlib.Algebra.BigOperators.Group.List.Basic

namespace Memory

/-! # Memory that is allocated and freed by hand

An address is never used for a second allocation, so that no access to a block that
was freed goes unseen.  Assertions speak of a part of the blocks, and what a program
does to a part that it owns it does next to any other part.
-/

variable {Cell α β ε : Type}

abbrev Blocks (Cell : Type) := Finmap fun _ : Nat => Cell

structure Heap (Cell : Type) where
  blocks : Blocks Cell
  next : Nat
  fresh : ∀ address ∈ blocks, address < next

def Heap.empty : Heap Cell where
  blocks := ∅
  next := 0
  fresh _ member := absurd member Finmap.notMem_empty

/-- A program without a result has used a block that is not there. -/
abbrev Program (Cell α : Type) := StateT (Heap Cell) Option α

def alloc (cell : Cell) : Program Cell Nat := fun heap =>
  some (heap.next,
    { blocks := heap.blocks.insert heap.next cell
      next := heap.next + 1
      fresh := fun address member => by
        rcases Finmap.mem_insert.mp member with rfl | earlier
        · exact Nat.lt_succ_self _
        · exact Nat.lt_succ_of_lt (heap.fresh address earlier) })

def read (address : Nat) : Program Cell Cell := fun heap =>
  (heap.blocks.lookup address).map fun cell => (cell, heap)

def free (address : Nat) : Program Cell Unit := fun heap =>
  if address ∈ heap.blocks then
    some ((), { heap with
      blocks := heap.blocks.erase address
      fresh := fun other member => heap.fresh other (Finmap.mem_erase.mp member).2 })
  else none

def write (address : Nat) (cell : Cell) : Program Cell Unit := fun heap =>
  if present : address ∈ heap.blocks then
    some ((), { heap with
      blocks := heap.blocks.insert address cell
      fresh := fun other member => by
        rcases Finmap.mem_insert.mp member with same | earlier
        · exact same ▸ heap.fresh address present
        · exact heap.fresh other earlier })
  else none

/-- The end of a program that does what it must not. -/
def fault : Program Cell α := fun _ => none

/-! ## Assertions -/

def Assertion (Cell : Type) := Blocks Cell → Prop

namespace Assertion

@[ext]
theorem ext {P Q : Assertion Cell} (same : ∀ blocks, P blocks ↔ Q blocks) : P = Q :=
  funext fun blocks => propext (same blocks)

/-- A part with the first property next to a part with the second. -/
def star (P Q : Assertion Cell) : Assertion Cell := fun blocks =>
  ∃ first second, Finmap.Disjoint first second ∧ blocks = first ∪ second ∧ P first ∧ Q second

def emp : Assertion Cell := fun blocks => blocks = ∅

theorem star_comm (P Q : Assertion Cell) : star P Q = star Q P := by
  have half : ∀ P Q : Assertion Cell, ∀ blocks, star P Q blocks → star Q P blocks := by
    intro P Q blocks holds
    obtain ⟨first, second, apart, rfl, left, right⟩ := holds
    exact ⟨second, first, apart.symm, Finmap.union_comm_of_disjoint apart, right, left⟩
  exact ext fun blocks => ⟨half P Q blocks, half Q P blocks⟩

theorem star_assoc (P Q R : Assertion Cell) : star (star P Q) R = star P (star Q R) := by
  ext blocks
  constructor
  · intro holds
    obtain ⟨_, third, apart, rfl, ⟨first, second, apart', rfl, left, middle⟩, right⟩ := holds
    obtain ⟨apart₁, apart₂⟩ := (Finmap.disjoint_union_left ..).mp apart
    exact ⟨first, second ∪ third, (Finmap.disjoint_union_right ..).mpr ⟨apart', apart₁⟩,
      Finmap.union_assoc, left, second, third, apart₂, rfl, middle, right⟩
  · intro holds
    obtain ⟨first, _, apart, rfl, left, second, third, apart', rfl, middle, right⟩ := holds
    obtain ⟨apart₁, apart₂⟩ := (Finmap.disjoint_union_right ..).mp apart
    exact ⟨first ∪ second, third, (Finmap.disjoint_union_left ..).mpr ⟨apart₂, apart'⟩,
      Finmap.union_assoc.symm, ⟨first, second, apart₁, rfl, left, middle⟩, right⟩

theorem emp_star (P : Assertion Cell) : star emp P = P := by
  ext blocks
  constructor
  · intro holds
    obtain ⟨_, second, -, rfl, rfl, right⟩ := holds
    rwa [Finmap.empty_union]
  · intro holds
    exact ⟨∅, blocks, Finmap.disjoint_empty _, Finmap.empty_union.symm, rfl, holds⟩

instance : CommMonoid (Assertion Cell) where
  mul := star
  one := emp
  mul_assoc := star_assoc
  mul_comm := star_comm
  one_mul := emp_star
  mul_one P := (star_comm P emp).trans (emp_star P)

def pointsTo (address : Nat) (cell : Cell) : Assertion Cell := fun blocks =>
  blocks = Finmap.singleton address cell

/-- A fact that is about no block. -/
def fact (p : Prop) : Assertion Cell := fun blocks => p ∧ blocks = ∅

def ex (P : β → Assertion Cell) : Assertion Cell := fun blocks => ∃ b, P b blocks

/-- Some blocks, as many as are said. -/
def size (n : Nat) : Assertion Cell := fun blocks => blocks.keys.card = n

def Entails (P Q : Assertion Cell) : Prop := ∀ blocks, P blocks → Q blocks

variable {P P' Q Q' R : Assertion Cell} {p : Prop} {m n : Nat} {blocks : Blocks Cell}

theorem one_apply : (1 : Assertion Cell) blocks ↔ blocks = ∅ := Iff.rfl

theorem Entails.refl (P : Assertion Cell) : Entails P P := fun _ holds => holds

theorem Entails.trans (first : Entails P Q) (second : Entails Q R) : Entails P R :=
  fun blocks holds => second blocks (first blocks holds)

theorem Entails.of_eq (same : P = Q) : Entails P Q := same ▸ Entails.refl P

theorem Entails.mul (left : Entails P P') (right : Entails Q Q') : Entails (P * Q) (P' * Q') := by
  intro blocks holds
  obtain ⟨first, second, apart, rfl, one, two⟩ := holds
  exact ⟨first, second, apart, rfl, left _ one, right _ two⟩

theorem fact_of (holds : p) : fact p = (1 : Assertion Cell) :=
  ext fun _ => ⟨fun both => both.2, fun empty => ⟨holds, empty⟩⟩

theorem fact_mul_apply : (fact p * P : Assertion Cell) blocks ↔ p ∧ P blocks := by
  constructor
  · intro holds
    obtain ⟨_, second, -, rfl, ⟨true_, rfl⟩, right⟩ := holds
    exact ⟨true_, by rwa [Finmap.empty_union]⟩
  · intro both
    rw [fact_of both.1, one_mul]
    exact both.2

theorem ex_mul {S : β → Assertion Cell} : ex S * P = ex fun b => S b * P := by
  ext blocks
  constructor
  · intro holds
    obtain ⟨first, second, apart, rfl, ⟨b, one⟩, two⟩ := holds
    exact ⟨b, first, second, apart, rfl, one, two⟩
  · intro holds
    obtain ⟨b, first, second, apart, rfl, one, two⟩ := holds
    exact ⟨first, second, apart, rfl, ⟨b, one⟩, two⟩

theorem card_union {first second : Blocks Cell} (apart : Finmap.Disjoint first second) :
    (first ∪ second).keys.card = first.keys.card + second.keys.card := by
  rw [Finmap.keys_union, Finset.card_union_of_disjoint]
  refine Finset.disjoint_left.mpr fun address one two => ?_
  exact apart address (Finmap.mem_keys.mp one) (Finmap.mem_keys.mp two)

theorem size_mul : Entails (size m * size n) (size (m + n) : Assertion Cell) := by
  intro blocks holds
  obtain ⟨first, second, apart, rfl, one, two⟩ := holds
  exact (card_union apart).trans (congrArg₂ (· + ·) one two)

theorem one_size : Entails 1 (size 0 : Assertion Cell) := by
  intro blocks empty
  rw [one_apply.mp empty]
  rfl

theorem pointsTo_size (address : Nat) (cell : Cell) : Entails (pointsTo address cell) (size 1) := by
  intro blocks same
  rw [show blocks = _ from same]
  simp [size]

end Assertion

/-! ## What a program does to the part that it owns -/

open Assertion

/-- From a part with the first property the program makes a result and a part with
the second. It leaves the other blocks alone, and allocates no address again. -/
def Triple (P : Assertion Cell) (program : Program Cell α) (Q : α → Assertion Cell) : Prop :=
  ∀ (heap : Heap Cell) (own other : Blocks Cell), heap.blocks = own ∪ other →
    Finmap.Disjoint own other → P own →
    ∃ result heap' own', program heap = some (result, heap') ∧ heap'.blocks = own' ∪ other ∧
      Finmap.Disjoint own' other ∧ Q result own' ∧ heap.next ≤ heap'.next ∧
      ∀ address < heap.next, address ∉ heap.blocks → address ∉ heap'.blocks

namespace Triple

variable {P P' R : Assertion Cell} {Q Q' : α → Assertion Cell} {S : β → Assertion Cell}
  {program : Program Cell α} {rest : α → Program Cell β} {p : Prop}

theorem pure (a : α) : Triple (Q a) (Pure.pure a) Q := by
  intro heap own other whole apart holds
  exact ⟨a, heap, own, rfl, whole, apart, holds, Nat.le_refl _, fun _ _ missing => missing⟩

theorem bind (first : Triple P program Q) (second : ∀ a, Triple (Q a) (rest a) S) :
    Triple P (program >>= rest) S := by
  intro heap own other whole apart holds
  obtain ⟨a, heap', own', ran, whole', apart', holds', later, gone⟩ := first heap own other whole apart holds
  obtain ⟨b, heap'', own'', ran', whole'', apart'', holds'', later', gone'⟩ :=
    second a heap' own' other whole' apart' holds'
  refine ⟨b, heap'', own'', ?_, whole'', apart'', holds'', Nat.le_trans later later', ?_⟩
  · change (program heap).bind (fun result => rest result.1 result.2) = _
    rw [ran]
    exact ran'
  · intro address old missing
    exact gone' address (Nat.lt_of_lt_of_le old later) (gone address old missing)

theorem consequence (triple : Triple P program Q) (before : Entails P' P)
    (after : ∀ a, Entails (Q a) (Q' a)) : Triple P' program Q' := by
  intro heap own other whole apart holds
  obtain ⟨a, heap', own', ran, whole', apart', holds', later⟩ :=
    triple heap own other whole apart (before own holds)
  exact ⟨a, heap', own', ran, whole', apart', after a own' holds', later⟩

theorem ofPure {a : α} (after : Entails P (Q a)) : Triple P (Pure.pure a) Q :=
  (pure a).consequence after fun _ => .refl _

theorem frame (R : Assertion Cell) (triple : Triple P program Q) :
    Triple (P * R) program fun a => Q a * R := by
  intro heap own other whole apart holds
  obtain ⟨first, second, apart', rfl, left, right⟩ := holds
  obtain ⟨apart₁, apart₂⟩ := (Finmap.disjoint_union_left ..).mp apart
  have whole' : heap.blocks = first ∪ (second ∪ other) := by rw [whole, Finmap.union_assoc]
  obtain ⟨a, heap', own', ran, whole'', apart'', holds', later⟩ := triple heap first (second ∪ other) whole'
    ((Finmap.disjoint_union_right ..).mpr ⟨apart', apart₁⟩) left
  obtain ⟨apart₃, apart₄⟩ := (Finmap.disjoint_union_right ..).mp apart''
  exact ⟨a, heap', own' ∪ second, ran, by rw [whole'', Finmap.union_assoc],
    (Finmap.disjoint_union_left ..).mpr ⟨apart₄, apart₂⟩, ⟨own', second, apart₃, rfl, holds', right⟩, later⟩

/-- What a program makes beside what it does not touch. -/
theorem beside (triple : Triple 1 program Q) : Triple R program fun a => Q a * R := by
  have framed := triple.frame R
  rwa [one_mul] at framed

theorem ofEx {P : β → Assertion Cell} (each : ∀ b, Triple (P b) program Q) : Triple (ex P) program Q := by
  intro heap own other whole apart holds
  obtain ⟨b, holds⟩ := holds
  exact each b heap own other whole apart holds

theorem ofFact (each : p → Triple P program Q) : Triple (fact p * P) program Q := by
  intro heap own other whole apart holds
  obtain ⟨true_, holds⟩ := fact_mul_apply.mp holds
  exact each true_ heap own other whole apart holds

/-- A program that is never run. -/
theorem never : Triple (fact False) program Q := by
  intro heap own other whole apart impossible
  exact impossible.1.elim

theorem alloc (cell : Cell) : Triple 1 (alloc cell) fun address => pointsTo address cell := by
  intro heap own other whole apart holds
  rw [one_apply.mp holds, Finmap.empty_union] at whole
  have new : heap.next ∉ heap.blocks := fun member => Nat.lt_irrefl _ (heap.fresh _ member)
  refine ⟨heap.next, _, Finmap.singleton heap.next cell, rfl, ?_, ?_, rfl, Nat.le_succ _, ?_⟩
  · change heap.blocks.insert heap.next cell = _
    rw [whole]
    rfl
  · intro address member
    rw [Finmap.mem_singleton] at member
    rw [member, ← whole]
    exact new
  · intro address old missing member
    rcases Finmap.mem_insert.mp member with rfl | earlier
    · exact Nat.lt_irrefl _ old
    · exact missing earlier

theorem allocThen {cell : Cell} {rest : Nat → Program Cell β}
    (goes : ∀ address, Triple (pointsTo address cell * P) (rest address) S) :
    Triple P (Memory.alloc cell >>= rest) S :=
  (alloc cell).beside.bind goes

theorem read {address : Nat} {cell : Cell} : Triple (pointsTo address cell) (read address) fun found =>
    fact (found = cell) * pointsTo address cell := by
  intro heap own other whole apart holds
  have same : own = Finmap.singleton address cell := holds
  subst same
  refine ⟨cell, heap, _, ?_, whole, apart, ?_, Nat.le_refl _, fun _ _ missing => missing⟩
  · have found : heap.blocks.lookup address = some cell := by
      rw [whole, Finmap.lookup_union_left (by simp), Finmap.lookup_singleton_eq]
    rw [Memory.read, found]
    rfl
  · exact fact_mul_apply.mpr ⟨rfl, rfl⟩

/-- Reads a block that is owned next to others. -/
theorem readThen {address : Nat} {cell : Cell} {rest : Cell → Program Cell β}
    (goes : Triple (pointsTo address cell * P) (rest cell) S) :
    Triple (pointsTo address cell * P) (Memory.read address >>= rest) S := by
  refine (read.frame P).bind fun found => ?_
  rw [mul_assoc]
  refine .ofFact fun same => ?_
  rw [same]
  exact goes

theorem free {address : Nat} {cell : Cell} :
    Triple (pointsTo address cell) (free address) fun _ => 1 := by
  intro heap own other whole apart holds
  have same : own = Finmap.singleton address cell := holds
  subst same
  have member : address ∈ heap.blocks := by
    rw [whole, Finmap.mem_union]
    exact .inl (by simp)
  have away : address ∉ other := apart address (by simp)
  refine ⟨(), _, ∅, if_pos member, ?_, Finmap.disjoint_empty _, rfl, Nat.le_refl _, ?_⟩
  · rw [Finmap.empty_union]
    refine Finmap.ext_lookup fun x => ?_
    by_cases here : x = address
    · rw [here, Finmap.lookup_erase, Finmap.lookup_eq_none.mpr away]
    · rw [Finmap.lookup_erase_ne here, whole, Finmap.lookup_union_right (by simpa using here)]
  · intro other old missing present
    exact missing (Finmap.mem_erase.mp present).2

/-- Gives up one thing next to others. -/
theorem dropThen {first : Program Cell Unit} {rest : Program Cell β} {Q : Assertion Cell}
    (drops : Triple P first fun _ => 1) (goes : Triple Q rest S) :
    Triple (P * Q) (first >>= fun _ => rest) S := by
  refine (drops.frame Q).bind fun _ => ?_
  rw [one_mul]
  exact goes

theorem write {address : Nat} {cell : Cell} (now : Cell) :
    Triple (pointsTo address cell) (write address now) fun _ => pointsTo address now := by
  intro heap own other whole apart holds
  have same : own = Finmap.singleton address cell := holds
  subst same
  have member : address ∈ heap.blocks := by
    rw [whole, Finmap.mem_union]
    exact .inl (by simp)
  refine ⟨(), _, _, dif_pos member, ?_, ?_, rfl, Nat.le_refl _, ?_⟩
  · change heap.blocks.insert address now = _
    rw [whole, Finmap.insert_union, Finmap.insert_singleton_eq]
  · intro x present
    exact apart x (by simpa using present)
  · intro other old missing present
    rcases Finmap.mem_insert.mp present with rfl | earlier
    · exact missing member
    · exact missing earlier

/-- A program whose result may be an error stops at the first one. -/
theorem bindExcept {program : ExceptT ε (Program Cell) α} {rest : α → ExceptT ε (Program Cell) β}
    {Q : Except ε α → Assertion Cell} {S : Except ε β → Assertion Cell}
    (first : Triple P program.run Q) (fails : ∀ reason, Entails (Q (.error reason)) (S (.error reason)))
    (second : ∀ a, Triple (Q (.ok a)) (rest a).run S) : Triple P (program >>= rest).run S := by
  rw [ExceptT.run_bind]
  refine first.bind fun result => ?_
  cases result with
  | ok a => exact second a
  | error reason =>
      exact ofPure (fails reason)

theorem lift (triple : Triple P program Q) :
    Triple P (ExceptT.lift program : ExceptT ε (Program Cell) α).run fun result =>
      match result with
      | .ok a => Q a
      | .error _ => fact False := by
  rw [ExceptT.run_lift]
  exact triple.bind fun a => pure (Q := fun result : Except ε α =>
    match result with
    | .ok a => Q a
    | .error _ => fact False) (.ok a)

/-- What a program does to a heap of which it owns a part. -/
theorem run (triple : Triple P program Q) {heap : Heap Cell} (holds : (P * R) heap.blocks) :
    ∃ result heap', program heap = some (result, heap') ∧ (Q result * R) heap'.blocks ∧
      heap.next ≤ heap'.next ∧ ∀ address < heap.next, address ∉ heap.blocks → address ∉ heap'.blocks := by
  obtain ⟨own, other, apart, whole, left, right⟩ := holds
  obtain ⟨result, heap', own', ran, whole', apart', holds', later⟩ := triple heap own other whole apart left
  exact ⟨result, heap', ran, ⟨own', other, apart', whole', holds', right⟩, later⟩

/-- A program that owns nothing runs on every heap. -/
theorem runs (triple : Triple 1 program Q) (heap : Heap Cell) : ∃ result heap',
    program heap = some (result, heap') ∧ heap.next ≤ heap'.next ∧
      ∀ address < heap.next, address ∉ heap.blocks → address ∉ heap'.blocks := by
  obtain ⟨result, heap', _, ran, -, -, -, later⟩ :=
    triple heap ∅ heap.blocks Finmap.empty_union.symm (Finmap.disjoint_empty _) rfl
  exact ⟨result, heap', ran, later⟩

end Triple

/-! ## What is there to be read -/

/-- A part of the blocks has the property. -/
def Heap.Has (heap : Heap Cell) (P : Assertion Cell) : Prop := ∃ R : Assertion Cell, (P * R) heap.blocks

namespace Heap.Has

variable {heap : Heap Cell} {P Q : Assertion Cell} {p : Prop}

theorem left (has : heap.Has (P * Q)) : heap.Has P := by
  obtain ⟨R, holds⟩ := has
  exact ⟨Q * R, by rwa [← mul_assoc]⟩

theorem right (has : heap.Has (P * Q)) : heap.Has Q := by
  rw [mul_comm] at has
  exact has.left

theorem ofEx {P : β → Assertion Cell} (has : heap.Has (ex P)) : ∃ b, heap.Has (P b) := by
  obtain ⟨R, holds⟩ := has
  rw [ex_mul] at holds
  obtain ⟨b, holds⟩ := holds
  exact ⟨b, R, holds⟩

theorem ofFact (has : heap.Has (fact p * P)) : p ∧ heap.Has P := by
  obtain ⟨R, holds⟩ := has
  rw [mul_assoc] at holds
  obtain ⟨true_, holds⟩ := fact_mul_apply.mp holds
  exact ⟨true_, R, holds⟩

theorem not_false (has : heap.Has (fact False)) : False := by
  have only : heap.Has (fact False * 1) := by rwa [mul_one]
  exact only.ofFact.1

theorem lookup {address : Nat} {cell : Cell} (has : heap.Has (pointsTo address cell)) :
    heap.blocks.lookup address = some cell := by
  obtain ⟨R, own, other, apart, whole, same, -⟩ := has
  have same : own = Finmap.singleton address cell := same
  rw [whole, same, Finmap.lookup_union_left (by simp), Finmap.lookup_singleton_eq]

theorem read {address : Nat} {cell : Cell} (has : heap.Has (pointsTo address cell)) :
    Memory.read address heap = some (cell, heap) := by
  rw [Memory.read, has.lookup]
  rfl

end Heap.Has

/-- A program that does, where there is something to be read, what one does that owns nothing. -/
theorem Triple.ofReads {P : Assertion Cell} {Q : α → Assertion Cell} {program plain : Program Cell α}
    (reads : ∀ heap : Heap Cell, heap.Has P → program heap = plain heap) (makes : Triple 1 plain Q) :
    Triple P program fun a => Q a * P := by
  intro heap own other whole apart holds
  have has : heap.Has P := ⟨fun blocks => blocks = other, own, other, apart, whole, holds, rfl⟩
  rw [reads heap has]
  exact makes.beside heap own other whole apart holds

theorem Triple.ofValue {P : Assertion Cell} {program : Program Cell α} {a : α}
    (gives : ∀ heap : Heap Cell, heap.Has P → program heap = some (a, heap)) :
    Triple P program fun found => fact (found = a) * P :=
  .ofReads gives (Triple.ofPure (Q := fun found => fact (found = a)) fun _ nothing => ⟨rfl, nothing⟩)

theorem bind_runs {heap heap' : Heap Cell} {program : Program Cell α} {a : α} {rest : α → Program Cell β}
    (runs : program heap = some (a, heap')) : (program >>= rest) heap = rest a heap' := by
  change (program heap).bind (fun result => rest result.1 result.2) = _
  rw [runs]
  rfl

theorem bind_faults {heap : Heap Cell} {program : Program Cell α} {rest : α → Program Cell β}
    (faults : program heap = none) : (program >>= rest) heap = none := by
  change (program heap).bind (fun result => rest result.1 result.2) = _
  rw [faults]
  rfl

theorem alloc_eq (cell : Cell) (heap : Heap Cell) : ∃ heap', alloc cell heap = some (heap.next, heap') ∧
    heap'.next = heap.next + 1 ∧
    ∀ address, heap'.blocks.lookup address =
      if address = heap.next then some cell else heap.blocks.lookup address := by
  refine ⟨_, rfl, rfl, fun address => ?_⟩
  change (heap.blocks.insert heap.next cell).lookup address = _
  by_cases here : address = heap.next
  · rw [here, Finmap.lookup_insert, if_pos rfl]
  · rw [Finmap.lookup_insert_of_ne _ here, if_neg here]

theorem free_eq {heap : Heap Cell} {address : Nat} (present : address ∈ heap.blocks) :
    ∃ heap', free address heap = some ((), heap') ∧ heap'.next = heap.next ∧
      ∀ other, heap'.blocks.lookup other = if other = address then none else heap.blocks.lookup other := by
  refine ⟨_, if_pos present, rfl, fun other => ?_⟩
  change (heap.blocks.erase address).lookup other = _
  by_cases here : other = address
  · rw [here, Finmap.lookup_erase, if_pos rfl]
  · rw [Finmap.lookup_erase_ne here, if_neg here]

theorem free_eq_some {heap heap' : Heap Cell} {address : Nat} (freed : free address heap = some ((), heap')) :
    address < heap.next ∧ address ∉ heap'.blocks := by
  rw [free] at freed
  split at freed
  · rename_i present
    cases freed
    exact ⟨heap.fresh address present, by simp⟩
  · cases freed

theorem read_missing {heap : Heap Cell} {address : Nat} (missing : address ∉ heap.blocks) :
    read address heap = none := by
  rw [read, Finmap.lookup_eq_none.mpr missing]
  rfl

end Memory
