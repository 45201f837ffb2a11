import Mathlib.Data.List.Induction
import Mathlib.Logic.Function.Basic

namespace Locks

/-! # The locks of a thread that is alone

A request for a lock waits only for what the thread itself holds: an exclusive
request for any hold, a shared request for an exclusive one.
-/

variable {Lock : Type} [DecidableEq Lock]

inductive Hold where
  | shared (readers : Nat)
  | exclusive
deriving Repr, DecidableEq

abbrev Hold.free : Hold := .shared 0

inductive Request (Lock : Type) where
  | lock (l : Lock)
  | unlock (l : Lock)
  | read (l : Lock)
  | unread (l : Lock)
deriving Repr, DecidableEq

def granted (held : Lock → Hold) : Request Lock → Option (Lock → Hold)
  | .lock l =>
      match held l with
      | .shared 0 => some (Function.update held l .exclusive)
      | _ => none
  | .unlock l => some (Function.update held l .free)
  | .read l =>
      match held l with
      | .shared readers => some (Function.update held l (.shared (readers + 1)))
      | .exclusive => none
  | .unread l =>
      match held l with
      | .shared (readers + 1) => some (Function.update held l (.shared readers))
      | _ => some held

def Waits (held : Lock → Hold) (request : Request Lock) : Prop := granted held request = none

/-- What the thread holds after its requests, unless one of them waits. -/
def run (held : Lock → Hold) : List (Request Lock) → Option (Lock → Hold)
  | [] => some held
  | request :: requests => (granted held request).bind fun held => run held requests

variable {held : Lock → Hold} {first second body requests : List (Request Lock)} {l : Lock}

theorem run_append : run held (first ++ second) = (run held first).bind fun held => run held second := by
  induction first generalizing held with
  | nil => rfl
  | cons request first ih =>
      cases here : granted held request with
      | none => simp [run, here]
      | some next => simp [run, here, ih]

/-- No request waits, at any point. -/
def NeverWaits (held : Lock → Hold) (requests : List (Request Lock)) : Prop :=
  ∀ before request after now, requests = before ++ request :: after → run held before = some now →
    ¬ Waits now request

theorem neverWaits_iff : NeverWaits held requests ↔ run held requests ≠ none := by
  constructor
  · intro never
    induction requests using List.reverseRecOn with
    | nil => simp [run]
    | append_singleton requests request ih =>
        have earlier : run held requests ≠ none := ih fun before request' after now whole reached =>
          never before request' (after ++ [request]) now (by simp [whole]) reached
        obtain ⟨now, reached⟩ := Option.ne_none_iff_exists'.mp earlier
        have here := never requests request [] now rfl reached
        cases next : granted now request with
        | none => exact absurd next here
        | some later => simp [run_append, reached, run, next]
  · intro completes before request after now whole reached waits
    apply completes
    unfold Waits at waits
    simp [whole, run_append, reached, run, waits]

/-! ## Scopes -/

/-- A program that takes locks and gives them all back. -/
def Neutral (requests : List (Request Lock)) : Prop :=
  ∀ held : Lock → Hold, run held requests = some held ∨ run held requests = none

def Completes (held : Lock → Hold) (requests : List (Request Lock)) : Prop :=
  run held requests = some held

theorem Neutral.completes_iff (neutral : Neutral requests) :
    Completes held requests ↔ NeverWaits held requests := by
  rw [neverWaits_iff, Completes]
  rcases neutral held with whole | waits
  · simp [whole]
  · simp [waits]

theorem neutral_nil : Neutral ([] : List (Request Lock)) := fun _ => .inl rfl

theorem completes_nil : Completes held [] := rfl

theorem Neutral.append (neutral : Neutral first) (neutral' : Neutral second) : Neutral (first ++ second) := by
  intro held
  rw [run_append]
  rcases neutral held with whole | waits
  · rw [whole]
    exact neutral' held
  · exact .inr (by rw [waits]; rfl)

theorem completes_append (neutral : Neutral first) :
    Completes held (first ++ second) ↔ Completes held first ∧ Completes held second := by
  unfold Completes
  rw [run_append]
  rcases neutral held with whole | waits
  · simp [whole]
  · simp [waits]

theorem Neutral.flatMap {α : Type} {items : List α} {program : α → List (Request Lock)}
    (neutral : ∀ item ∈ items, Neutral (program item)) : Neutral (items.flatMap program) := by
  induction items with
  | nil => exact neutral_nil
  | cons item items ih =>
      rw [List.forall_mem_cons] at neutral
      exact neutral.1.append (ih neutral.2)

theorem completes_flatMap {α : Type} {items : List α} {program : α → List (Request Lock)}
    (neutral : ∀ item ∈ items, Neutral (program item)) :
    Completes held (items.flatMap program) ↔ ∀ item ∈ items, Completes held (program item) := by
  induction items with
  | nil => simp [completes_nil]
  | cons item items ih =>
      rw [List.forall_mem_cons] at neutral
      rw [List.flatMap_cons, completes_append neutral.1, ih neutral.2, List.forall_mem_cons]

/-- The scope of an exclusive guard. -/
def locked (l : Lock) (body : List (Request Lock)) : List (Request Lock) :=
  .lock l :: body ++ [.unlock l]

/-- The scope of a shared guard. -/
def reading (l : Lock) (body : List (Request Lock)) : List (Request Lock) :=
  .read l :: body ++ [.unread l]

/-- What the thread holds with one more reader of a lock. -/
def addReader (held : Lock → Hold) (l : Lock) : Lock → Hold :=
  match held l with
  | .shared readers => Function.update held l (.shared (readers + 1))
  | .exclusive => held

theorem granted_lock : granted held (.lock l) =
    if held l = .free then some (Function.update held l .exclusive) else none := by
  cases hold : held l with
  | exclusive => simp [granted, hold]
  | shared readers => cases readers <;> simp [granted, hold]

/-- A program between a request and the one that undoes it. -/
theorem run_scope {inner : Lock → Hold} {taking giving : Request Lock}
    (taken : granted held taking = some inner) (given : granted inner giving = some held)
    (neutral : Neutral body) :
    (Completes inner body ∧ run held (taking :: body ++ [giving]) = some held) ∨
    (¬ Completes inner body ∧ run held (taking :: body ++ [giving]) = none) := by
  rw [List.cons_append, run, taken, Option.bind_some, run_append]
  rcases neutral inner with whole | waits
  · exact .inl ⟨whole, by simp [whole, run, given]⟩
  · refine .inr ⟨fun completes => ?_, by simp [waits]⟩
    rw [Completes, waits] at completes
    cases completes

/-- An exclusive scope completes, or one of its requests waits. -/
theorem run_locked (neutral : Neutral body) :
    ((held l = .free ∧ Completes (Function.update held l .exclusive) body) ∧
      run held (locked l body) = some held) ∨
    (¬ (held l = .free ∧ Completes (Function.update held l .exclusive) body) ∧
      run held (locked l body) = none) := by
  by_cases free : held l = .free
  · have taken : granted held (.lock l) = some (Function.update held l .exclusive) := by
      rw [granted_lock, if_pos free]
    have given : granted (Function.update held l .exclusive) (.unlock l) = some held := by
      rw [granted, Function.update_idem, ← free, Function.update_eq_self]
    rcases run_scope taken given neutral with ⟨completes, whole⟩ | ⟨fails, waits⟩
    · exact .inl ⟨⟨free, completes⟩, whole⟩
    · exact .inr ⟨fun both => fails both.2, waits⟩
  · refine .inr ⟨fun both => free both.1, ?_⟩
    rw [locked, List.cons_append, run, granted_lock, if_neg free]
    rfl

theorem run_reading (neutral : Neutral body) :
    ((held l ≠ .exclusive ∧ Completes (addReader held l) body) ∧
      run held (reading l body) = some held) ∨
    (¬ (held l ≠ .exclusive ∧ Completes (addReader held l) body) ∧
      run held (reading l body) = none) := by
  cases hold : held l with
  | exclusive => simp [reading, run, granted, hold]
  | shared readers =>
      have taken : granted held (.read l) = some (addReader held l) := by
        simp only [granted, addReader, hold]
      have given : granted (addReader held l) (.unread l) = some held := by
        simp only [granted, addReader, hold, Function.update_self]
        rw [Function.update_idem, ← hold, Function.update_eq_self]
      rcases run_scope taken given neutral with ⟨completes, whole⟩ | ⟨fails, waits⟩
      · exact .inl ⟨⟨by simp, completes⟩, whole⟩
      · exact .inr ⟨fun both => fails both.2, waits⟩

theorem Neutral.locked (neutral : Neutral body) : Neutral (locked l body) := fun _ =>
  (run_locked neutral).imp And.right And.right

theorem Neutral.reading (neutral : Neutral body) : Neutral (reading l body) := fun _ =>
  (run_reading neutral).imp And.right And.right

theorem completes_locked (neutral : Neutral body) : Completes held (locked l body) ↔
    held l = .free ∧ Completes (Function.update held l .exclusive) body := by
  rw [Completes]
  rcases run_locked neutral with ⟨completes, whole⟩ | ⟨fails, waits⟩
  · exact iff_of_true whole completes
  · exact iff_of_false (by simp [waits]) fails

theorem completes_reading (neutral : Neutral body) : Completes held (reading l body) ↔
    held l ≠ .exclusive ∧ Completes (addReader held l) body := by
  rw [Completes]
  rcases run_reading neutral with ⟨completes, whole⟩ | ⟨fails, waits⟩
  · exact iff_of_true whole completes
  · exact iff_of_false (by simp [waits]) fails

end Locks
