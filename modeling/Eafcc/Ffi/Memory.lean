import Eafcc.Library.Heap
import Eafcc.Whoami

namespace Eafcc.Ffi.Raw

open Eafcc.RuleEngine Eafcc.CfgCenter Memory

/-! # What the exported functions allocate and free

The results of a query leave the library as C structures that point to each other
and to C strings.  The caller hands them back to be freed.
-/

variable {Pri : Type}

structure ConfigValueReason (Pri : Type) where
  pri : Pri
  isNeg : Bool
  linkPath : Nat
  rulePath : Nat
  resPath : Nat

structure ConfigValue where
  key : Nat
  contentType : Nat
  value : Nat
  reason : Option Nat

/-- The pointer to no elements is not one to a block. -/
structure ConfigValues where
  len : Nat
  ptr : Option Nat

inductive Cell (Pri : Type) where
  | cString (text : CText)
  | reason (r : ConfigValueReason Pri)
  | buffer (capacity : Nat) (items : List ConfigValue)
  | configValues (v : ConfigValues)
  | whoami (context : MatchContext)

abbrev Prog (Pri α : Type) := Program (Cell Pri) α

abbrev Fallible (Pri α : Type) := ExceptT FFIError (Prog Pri) α

/-! ## Building the results -/

/-- `CString::new(text)?.into_raw()` -/
def intoRaw (text : Str) : Fallible Pri Nat :=
  match CText.new text with
  | .ok bytes => ExceptT.lift (alloc (.cString bytes))
  | .error reason => throw reason

def convertReason : Option (IdxLinkItem Pri) → Fallible Pri (Option Nat)
  | some r => do
      let rulePath ← intoRaw r.rulePath
      let linkPath ← intoRaw r.linkPath
      let resPath ← intoRaw r.absResPath
      let reason ← ExceptT.lift
        (alloc (.reason { pri := r.pri, isNeg := r.isNeg, rulePath, linkPath, resPath }))
      return some reason
  | none => return none

/-- The body of the loop over the results. -/
def convertResult (v : CFGResult Pri) : Fallible Pri ConfigValue := do
  let reason ← convertReason v.reason
  let contentType ← intoRaw v.value.contentType
  let key ← intoRaw v.value.key
  let value ← intoRaw v.value.value
  return { contentType, key, value, reason }

/-- A vector without elements has no buffer. -/
def withCapacity (capacity : Nat) : Prog Pri (Option Nat) :=
  if capacity = 0 then pure none
  else do
    let address ← alloc (.buffer capacity [])
    return some address

/-- The buffer has room for as many elements as are pushed. -/
def push (buffer : Option Nat) (item : ConfigValue) : Prog Pri Unit :=
  match buffer with
  | none => fault
  | some address => do
      match ← read address with
      | .buffer capacity items =>
          if items.length < capacity then write address (.buffer capacity (items ++ [item])) else fault
      | _ => fault

/-! ## Freeing the results -/

/-- `CString::from_raw` and the drop of its result. -/
def fromRaw (address : Nat) : Prog Pri Unit := do
  match ← read address with
  | .cString _ => free address
  | _ => fault

def dropReason (address : Nat) : Prog Pri Unit := do
  match ← read address with
  | .reason r => do
      fromRaw r.linkPath
      fromRaw r.rulePath
      fromRaw r.resPath
      free address
  | _ => fault

def ConfigValue.drop (v : ConfigValue) : Prog Pri Unit := do
  fromRaw v.key
  fromRaw v.contentType
  fromRaw v.value
  match v.reason with
  | some reason => dropReason reason
  | none => return ()

def dropItems : List ConfigValue → Prog Pri Unit
  | [] => return ()
  | item :: items => do
      item.drop
      dropItems items

/-- `Vec::from_raw_parts(ptr, len, len)` and the drop of its result, which frees a
buffer of that capacity only. -/
def dropVec (ptr : Option Nat) (len : Nat) : Prog Pri Unit :=
  match ptr with
  | none => if len = 0 then return () else fault
  | some address => do
      match ← read address with
      | .buffer capacity items =>
          if capacity = len ∧ items.length = len then do
            dropItems items
            free address
          else fault
      | _ => fault

def freeConfigValues (v : Nat) : Prog Pri Unit := do
  match ← read v with
  | .configValues values => do
      dropVec values.ptr values.len
      free v
  | _ => fault

/-! ## The loop over the results -/

/-- The drop of a vector whose elements do not fill it. -/
def dropPartial (buffer : Option Nat) : Prog Pri Unit :=
  match buffer with
  | none => return ()
  | some address => do
      match ← read address with
      | .buffer _ items => do
          dropItems items
          free address
      | _ => fault

/-- An error drops the vector on the way out. What the failing result has left of its
own is pointed to by nothing. -/
def convertLoop (buffer : Option Nat) : List (CFGResult Pri) → Fallible Pri Unit
  | [] => return ()
  | v :: values => do
      match ← ExceptT.lift (convertResult v).run with
      | .ok item => do
          ExceptT.lift (push buffer item)
          convertLoop buffer values
      | .error reason => do
          ExceptT.lift (dropPartial buffer)
          throw reason

def convertGetCfgOutputValue (values : List (CFGResult Pri)) : Fallible Pri Nat := do
  let buffer ← ExceptT.lift (withCapacity values.length)
  convertLoop buffer values
  -- The vector is full, so that shrinking it leaves its buffer as it is.
  ExceptT.lift (alloc (.configValues { len := values.length, ptr := buffer }))

/-! ## Reading the results -/

def readText (address : Nat) : Prog Pri CText := do
  match ← read address with
  | .cString text => return text
  | _ => fault

def readReason : Option Nat → Prog Pri (Option (Ffi.ConfigValueReason Pri))
  | some address => do
      match ← read address with
      | .reason r => do
          let rulePath ← readText r.rulePath
          let linkPath ← readText r.linkPath
          let resPath ← readText r.resPath
          return some { pri := r.pri, isNeg := r.isNeg, rulePath, linkPath, resPath }
      | _ => fault
  | none => return none

def readItems : List ConfigValue → Prog Pri (List (Ffi.ConfigValue Pri))
  | [] => return []
  | t :: items => do
      let key ← readText t.key
      let contentType ← readText t.contentType
      let value ← readText t.value
      let reason ← readReason t.reason
      let rest ← readItems items
      return { key, contentType, value, reason } :: rest

/-- What a caller reads through the pointer to the results. -/
def readConfigValues (v : Nat) : Prog Pri (List (Ffi.ConfigValue Pri)) := do
  match ← read v with
  | .configValues { len, ptr } =>
      match ptr with
      | none => if len = 0 then return [] else fault
      | some address => do
          match ← read address with
          | .buffer _ items => if len ≤ items.length then readItems (items.take len) else fault
          | _ => fault
  | _ => fault

/-! ## What pointers lead to -/

open Assertion

abbrev Owns (Pri : Type) := Assertion (Cell Pri)

def Text (address : Nat) (text : CText) : Owns Pri := pointsTo address (.cString text)

/-- The values that a structure points to are those of the result. -/
def Reason (address : Nat) (r : Ffi.ConfigValueReason Pri) : Owns Pri :=
  ex fun raw : ConfigValueReason Pri => fact (raw.pri = r.pri ∧ raw.isNeg = r.isNeg) *
    (pointsTo address (.reason raw) * (Text raw.linkPath r.linkPath *
      (Text raw.rulePath r.rulePath * Text raw.resPath r.resPath)))

def OptReason : Option Nat → Option (Ffi.ConfigValueReason Pri) → Owns Pri
  | some address, some r => Reason address r
  | none, none => 1
  | _, _ => fact False

def Item (raw : ConfigValue) (v : Ffi.ConfigValue Pri) : Owns Pri :=
  Text raw.key v.key * (Text raw.contentType v.contentType *
    (Text raw.value v.value * OptReason raw.reason v.reason))

/-- Structures one beside the other, each with the result that it points to. -/
def Items (items : List (ConfigValue × Ffi.ConfigValue Pri)) : Owns Pri :=
  (items.map fun item => Item item.1 item.2).prod

def Buffer (capacity : Nat) (items : List ConfigValue) : Option Nat → Owns Pri
  | none => fact (capacity = 0 ∧ items = [])
  | some address => pointsTo address (.buffer capacity items)

def Results (address : Nat) (values : List (Ffi.ConfigValue Pri)) : Owns Pri :=
  ex fun items : List (ConfigValue × Ffi.ConfigValue Pri) => ex fun ptr : Option Nat =>
    fact (items.map Prod.snd = values ∧ (ptr = none ↔ items = [])) *
      (pointsTo address (.configValues { len := items.length, ptr }) *
        (Buffer items.length (items.map Prod.fst) ptr * Items items))

/-! ## Freeing gives all blocks back -/

section Freeing

variable {address : Nat} {text : CText} {values : List (Ffi.ConfigValue Pri)}

theorem fromRaw_spec : Triple (Text address text : Owns Pri) (fromRaw address) fun _ => 1 := by
  refine Triple.read.bind fun found => .ofFact fun same => ?_
  subst same
  exact .free

theorem dropReason_spec {r : Ffi.ConfigValueReason Pri} :
    Triple (Reason address r) (dropReason address) fun _ => 1 := by
  refine .ofEx fun raw => .ofFact fun _ => .readThen ?_
  rw [mul_comm, mul_assoc, mul_assoc]
  exact Triple.dropThen fromRaw_spec (Triple.dropThen fromRaw_spec (Triple.dropThen fromRaw_spec .free))

theorem drop_spec {raw : ConfigValue} {v : Ffi.ConfigValue Pri} :
    Triple (Item raw v) raw.drop fun _ => 1 := by
  refine Triple.dropThen fromRaw_spec (Triple.dropThen fromRaw_spec (Triple.dropThen fromRaw_spec ?_))
  cases raw.reason with
  | none =>
      cases v.reason with
      | none => exact Triple.pure (Q := fun _ => 1) ()
      | some r => exact .never
  | some address =>
      cases v.reason with
      | none => exact .never
      | some r => exact dropReason_spec

theorem dropItems_spec (items : List (ConfigValue × Ffi.ConfigValue Pri)) :
    Triple (Items items) (dropItems (items.map Prod.fst)) fun _ => 1 := by
  induction items with
  | nil => exact Triple.pure (Q := fun _ => 1) ()
  | cons item items ih => exact Triple.dropThen drop_spec ih

theorem dropVec_spec {items : List (ConfigValue × Ffi.ConfigValue Pri)} {ptr : Option Nat} :
    Triple (Buffer items.length (items.map Prod.fst) ptr * Items items) (dropVec ptr items.length)
      fun _ => 1 := by
  cases ptr with
  | none =>
      refine .ofFact fun empty => ?_
      obtain rfl := List.map_eq_nil_iff.mp empty.2
      exact dropItems_spec []
  | some address =>
      refine .readThen ?_
      have full : items.length = items.length ∧ (items.map Prod.fst).length = items.length := by simp
      rw [mul_comm]
      change Triple _ (if items.length = items.length ∧ (items.map Prod.fst).length = items.length then _ else _) _
      rw [if_pos full]
      exact Triple.dropThen (dropItems_spec items) .free

/-- The drop of a vector that an error leaves with some of its elements. -/
theorem dropPartial_spec {capacity : Nat} {items : List (ConfigValue × Ffi.ConfigValue Pri)} :
    Triple (pointsTo address (.buffer capacity (items.map Prod.fst)) * Items items)
      (dropPartial (some address)) fun _ => 1 := by
  refine .readThen ?_
  rw [mul_comm]
  exact Triple.dropThen (dropItems_spec items) .free

/-- Freeing the results frees every block that they consist of, and no other. -/
theorem freeConfigValues_spec : Triple (Results address values) (freeConfigValues address) fun _ => 1 := by
  refine .ofEx fun items => .ofEx fun ptr => .ofFact fun _ => .readThen ?_
  rw [mul_comm]
  exact Triple.dropThen dropVec_spec .free

end Freeing

/-! ## Building makes the results, or leaves some blocks behind -/

/-- As many texts as come before the first one with a NUL. -/
def textsBefore (texts : List Str) : Nat := (texts.takeWhile fun text => nul ∉ text).length

theorem textsBefore_cut {text : Str} (texts : List Str) (cut : nul ∈ text) :
    textsBefore (text :: texts) = 0 := by
  rw [textsBefore, List.takeWhile_cons_of_neg (by simpa using cut), List.length_nil]

theorem textsBefore_plain {text : Str} (texts : List Str) (plain : nul ∉ text) :
    textsBefore (text :: texts) = textsBefore texts + 1 := by
  rw [textsBefore, List.takeWhile_cons_of_pos (by simpa using plain), List.length_cons, textsBefore]

def reasonTexts : Option (IdxLinkItem Pri) → List Str
  | some r => [r.rulePath, r.linkPath, r.absResPath]
  | none => []

def valueTexts (v : CFGResult Pri) : List Str := [v.value.contentType, v.value.key, v.value.value]

def reasonSize {α : Type} : Option α → Nat
  | some _ => 4
  | none => 0

/-- The blocks that a result leaves behind of which a text holds a NUL: the strings
before that one, and the box of the reason once it is made. -/
def lostBy (v : CFGResult Pri) : Nat :=
  if ∃ text ∈ reasonTexts v.reason, nul ∈ text then textsBefore (reasonTexts v.reason)
  else reasonSize v.reason + textsBefore (valueTexts v)

/-- What building leaves of its blocks, where `expected` tells how it ends. -/
def Outcome {α β : Type} (expected : Except FFIError β) (made : α → β → Owns Pri) (lost : Nat) :
    Except FFIError α → Owns Pri
  | .ok a => ex fun b => fact (expected = .ok b) * made a b
  | .error reason => fact (expected = .error reason) * size lost

section Building

variable {α β γ δ : Type} {P : Owns Pri} {made : α → β → Owns Pri} {made' : γ → δ → Owns Pri} {n m : Nat}

theorem CText.new_error {text : Str} {reason : FFIError} (fails : CText.new text = .error reason) :
    nul ∈ text := by
  by_contra plain
  rw [CText.new_iff.mpr ⟨plain, rfl⟩] at fails
  cases fails

theorem outcome_pure (made : α → β → Owns Pri) (a : α) (b : β) : Triple (made a b) (pure a : Fallible Pri α).run
    (Outcome (.ok b) made n) :=
  .ofPure fun _ holds => ⟨b, fact_mul_apply.mpr ⟨rfl, holds⟩⟩

theorem outcome_bind {program : Fallible Pri α} {rest : α → Fallible Pri γ}
    {expected : Except FFIError β} {expected' : β → Except FFIError δ}
    (first : Triple P program.run (Outcome expected made n))
    (fails : ∀ reason, expected = .error reason → n = m)
    (second : ∀ a b, expected = .ok b → Triple (made a b) (rest a).run (Outcome (expected' b) made' m)) :
    Triple P (program >>= rest).run (Outcome (expected >>= expected') made' m) := by
  refine .bindExcept first (fun reason blocks holds => ?_) fun a => ?_
  · obtain ⟨failed, left⟩ := fact_mul_apply.mp holds
    rw [← fails reason failed, failed]
    exact fact_mul_apply.mpr ⟨rfl, left⟩
  · refine .ofEx fun b => .ofFact fun same => ?_
    rw [same]
    exact second a b same

/-- A text that becomes a C string after blocks that an error leaves behind. -/
theorem intoRaw_then {text : Str} {rest : Nat → Fallible Pri γ} {expected : CText → Except FFIError δ}
    (owned : Entails P (size n)) (fails : nul ∈ text → n = m)
    (goes : ∀ address bytes, CText.new text = .ok bytes →
      Triple (Text address bytes * P) (rest address).run (Outcome (expected bytes) made' m)) :
    Triple P (intoRaw text >>= rest).run (Outcome (CText.new text >>= expected) made' m) := by
  cases converted : CText.new text with
  | ok bytes =>
      have made : (intoRaw text : Fallible Pri Nat) = ExceptT.lift (alloc (.cString bytes)) := by
        rw [intoRaw, converted]
      rw [made, ExceptT.run_bind_lift]
      exact .allocThen fun address => goes address bytes converted
  | error reason =>
      have made : (intoRaw text : Fallible Pri Nat) = throw reason := by
        rw [intoRaw, converted]
      rw [made]
      have same := fails (CText.new_error converted)
      exact .ofPure fun blocks holds => fact_mul_apply.mpr ⟨rfl, same ▸ owned blocks holds⟩

theorem text_size (address : Nat) (text : CText) (owned : Entails P (size n)) :
    Entails (Text address text * P) (size (n + 1)) := by
  rw [Nat.add_comm n 1]
  exact ((pointsTo_size _ _).mul owned).trans size_mul

theorem CText.new_plain {text : Str} {bytes : CText} (made : CText.new text = .ok bytes) : nul ∉ text :=
  (CText.new_iff.mp made).1

end Building

theorem convertReason_spec (reason : Option (IdxLinkItem Pri)) :
    Triple 1 (convertReason reason).run
      (Outcome (Ffi.convertReason reason) OptReason (textsBefore (reasonTexts reason))) := by
  cases reason with
  | none => exact outcome_pure OptReason none none
  | some r =>
      refine intoRaw_then one_size (fun cut => (textsBefore_cut _ cut).symm) fun rulePath rule made => ?_
      have counted := textsBefore_plain [r.linkPath, r.absResPath] (CText.new_plain made)
      refine intoRaw_then (text_size rulePath rule one_size) (fun cut => ?_) fun linkPath link made' => ?_
      · rw [reasonTexts, counted, textsBefore_cut _ cut]
      have counted' := textsBefore_plain [r.absResPath] (CText.new_plain made')
      refine intoRaw_then (text_size linkPath link (text_size rulePath rule one_size)) (fun cut => ?_)
        fun resPath res made'' => ?_
      · rw [reasonTexts, counted, counted', textsBefore_cut _ cut]
      rw [ExceptT.run_bind_lift]
      refine .allocThen fun address => .ofPure fun blocks holds => ?_
      refine ⟨some _, fact_mul_apply.mpr ⟨rfl, { pri := r.pri, isNeg := r.isNeg, linkPath, rulePath, resPath },
        fact_mul_apply.mpr ⟨⟨rfl, rfl⟩, ?_⟩⟩⟩
      rw [mul_one, mul_left_comm (Text resPath res), mul_comm (Text resPath res)] at holds
      exact holds

theorem convertReason_ok {reason : Option (IdxLinkItem Pri)} {r : Option (Ffi.ConfigValueReason Pri)}
    (made : Ffi.convertReason reason = .ok r) :
    (∀ text ∈ reasonTexts reason, nul ∉ text) ∧ reasonSize r = reasonSize reason := by
  cases reason with
  | none =>
      cases made
      simp [reasonTexts, reasonSize]
  | some link =>
      simp only [Ffi.convertReason, bind_eq_ok, CText.new_iff, pure, Except.pure, Except.ok.injEq] at made
      obtain ⟨rulePath, ⟨first, -⟩, linkPath, ⟨second, -⟩, resPath, ⟨third, -⟩, rfl⟩ := made
      exact ⟨by simp [reasonTexts, first, second, third], rfl⟩

theorem convertReason_error {reason : Option (IdxLinkItem Pri)} {failure : FFIError}
    (fails : Ffi.convertReason reason = .error failure) : ∃ text ∈ reasonTexts reason, nul ∈ text := by
  cases reason with
  | none => cases fails
  | some link =>
      by_contra plain
      simp only [reasonTexts, List.mem_cons, List.not_mem_nil, or_false, exists_eq_or_imp, exists_eq_left,
        not_or] at plain
      obtain ⟨first, second, third⟩ := plain
      simp [Ffi.convertReason, CText.new_iff.mpr ⟨first, rfl⟩, CText.new_iff.mpr ⟨second, rfl⟩,
        CText.new_iff.mpr ⟨third, rfl⟩, bind, Except.bind, pure, Except.pure] at fails

theorem reason_size (address : Nat) (r : Ffi.ConfigValueReason Pri) :
    Entails (Reason address r) (size 4) := by
  intro blocks holds
  obtain ⟨raw, holds⟩ := holds
  have sized : Entails (pointsTo address (.reason raw) * (Text raw.linkPath r.linkPath *
      (Text raw.rulePath r.rulePath * Text raw.resPath r.resPath))) (size (3 + 1) : Owns Pri) := by
    rw [mul_comm]
    refine ((Entails.mul ?_ (pointsTo_size _ _)).trans size_mul)
    exact text_size _ _ (text_size _ _ (pointsTo_size _ _))
  exact sized blocks (fact_mul_apply.mp holds).2

theorem optReason_size (address : Option Nat) (r : Option (Ffi.ConfigValueReason Pri)) :
    Entails (OptReason address r) (size (reasonSize r)) := by
  cases address with
  | none =>
      cases r with
      | none => exact one_size
      | some r => exact fun blocks impossible => impossible.1.elim
  | some address =>
      cases r with
      | none => exact fun blocks impossible => impossible.1.elim
      | some r => exact reason_size address r

theorem convertResult_spec (v : CFGResult Pri) :
    Triple 1 (convertResult v).run (Outcome (Ffi.convertResult v) Item (lostBy v)) := by
  refine outcome_bind (convertReason_spec v.reason) (fun failure fails => ?_) fun reason r made => ?_
  · rw [lostBy, if_pos (convertReason_error fails)]
  obtain ⟨plain, sameSize⟩ := convertReason_ok made
  have lost : lostBy v = reasonSize r + textsBefore (valueTexts v) := by
    rw [lostBy, if_neg (by simpa using plain), sameSize]
  have owned := optReason_size reason r
  refine intoRaw_then owned (fun cut => ?_) fun contentType content contentMade => ?_
  · rw [lost, valueTexts, textsBefore_cut _ cut, Nat.add_zero]
  have counted := textsBefore_plain [v.value.key, v.value.value] (CText.new_plain contentMade)
  refine intoRaw_then (text_size contentType content owned) (fun cut => ?_) fun key keyText keyMade => ?_
  · rw [lost, valueTexts, counted, textsBefore_cut _ cut]
  have counted' := textsBefore_plain [v.value.value] (CText.new_plain keyMade)
  refine intoRaw_then (text_size key keyText (text_size contentType content owned)) (fun cut => ?_)
    fun value valueText valueMade => ?_
  · rw [lost, valueTexts, counted, counted', textsBefore_cut _ cut]
  refine (outcome_pure Item { contentType, key, value, reason }
    { contentType := content, key := keyText, value := valueText, reason := r }).consequence
      (Entails.of_eq ?_) fun _ => .refl _
  rw [Item, mul_left_comm (Text value valueText), mul_left_comm (Text value valueText)]

theorem push_spec {address capacity : Nat} {items : List ConfigValue} (room : items.length < capacity)
    (item : ConfigValue) : Triple (pointsTo address (.buffer capacity items) : Owns Pri)
      (push (some address) item) fun _ => pointsTo address (.buffer capacity (items ++ [item])) := by
  refine Triple.read.bind fun found => .ofFact fun same => ?_
  rw [same]
  change Triple _ (if items.length < capacity then _ else _) _
  rw [if_pos room]
  exact .write _

/-- The blocks that the first result that cannot be converted leaves behind. -/
def lostIn : List (CFGResult Pri) → Nat
  | [] => 0
  | v :: values =>
      match Ffi.convertResult v with
      | .ok _ => lostIn values
      | .error _ => lostBy v

/-- The vector with the elements that it had and more. -/
def Extended (address capacity : Nat) (done : List (ConfigValue × Ffi.ConfigValue Pri))
    (values : List (Ffi.ConfigValue Pri)) : Owns Pri :=
  ex fun more : List (ConfigValue × Ffi.ConfigValue Pri) => fact (more.map Prod.snd = values) *
    (pointsTo address (.buffer capacity ((done ++ more).map Prod.fst)) * Items (done ++ more))

theorem convertLoop_spec (address : Nat) {capacity : Nat} (values : List (CFGResult Pri))
    (done : List (ConfigValue × Ffi.ConfigValue Pri)) (room : done.length + values.length ≤ capacity) :
    Triple (pointsTo address (.buffer capacity (done.map Prod.fst)) * Items done)
      (convertLoop (some address) values).run
      (Outcome (values.mapM Ffi.convertResult) (fun _ => Extended address capacity done) (lostIn values)) := by
  induction values generalizing done with
  | nil =>
      refine .ofPure fun blocks holds => ⟨[], fact_mul_apply.mpr ⟨rfl, [], fact_mul_apply.mpr ⟨rfl, ?_⟩⟩⟩
      rw [List.append_nil]
      exact holds
  | cons v values ih =>
      rw [convertLoop, ExceptT.run_bind_lift, List.mapM_cons]
      refine (convertResult_spec v).beside.bind fun result => ?_
      cases result with
      | error reason =>
          rw [Outcome, mul_assoc]
          refine .ofFact fun fails => ?_
          rw [fails, lostIn, fails, mul_comm, ExceptT.run_bind_lift]
          refine Triple.dropThen dropPartial_spec (.ofPure fun blocks left => ?_)
          exact fact_mul_apply.mpr ⟨rfl, left⟩
      | ok item =>
          rw [Outcome, ex_mul]
          refine .ofEx fun value => ?_
          rw [mul_assoc]
          refine .ofFact fun made => ?_
          rw [made, lostIn, made, ExceptT.run_bind_lift, mul_left_comm]
          have short : (done.map Prod.fst).length < capacity := by
            rw [List.length_map]
            rw [List.length_cons] at room
            omega
          refine ((push_spec short item).frame _).bind fun _ => ?_
          have next := ih (done ++ [(item, value)]) (by simp at room ⊢; omega)
          have gathered : Items (done ++ [(item, value)]) = Item item value * Items done := by
            simp [Items, mul_comm]
          rw [gathered, List.map_append] at next
          refine next.consequence (.refl _) fun result blocks holds => ?_
          cases result with
          | error reason =>
              obtain ⟨fails, left⟩ := fact_mul_apply.mp holds
              exact fact_mul_apply.mpr ⟨by rw [fails]; rfl, left⟩
          | ok _ =>
              obtain ⟨others, holds⟩ := holds
              obtain ⟨rest, more, holds⟩ := fact_mul_apply.mp holds
              obtain ⟨same, holds⟩ := fact_mul_apply.mp holds
              rw [List.append_assoc, List.singleton_append] at holds
              refine ⟨value :: others, fact_mul_apply.mpr ⟨by rw [rest]; rfl, ?_⟩⟩
              exact ⟨(item, value) :: more, fact_mul_apply.mpr ⟨by rw [List.map_cons, same], holds⟩⟩

theorem length_mapM {values : List (CFGResult Pri)} {converted : List (Ffi.ConfigValue Pri)}
    (same : values.mapM Ffi.convertResult = .ok converted) : converted.length = values.length := by
  induction values generalizing converted with
  | nil =>
      cases same
      rfl
  | cons v values ih =>
      rw [List.mapM_cons, bind_eq_ok] at same
      obtain ⟨first, -, same⟩ := same
      obtain ⟨rest, made, same⟩ := bind_eq_ok.mp same
      cases same
      rw [List.length_cons, List.length_cons, ih made]

/-- Building the results either makes structures that lead to what the results convert
to, or leaves behind what the result that fails has made. -/
theorem convertGetCfgOutputValue_spec (values : List (CFGResult Pri)) :
    Triple 1 (convertGetCfgOutputValue values).run
      (Outcome (Ffi.convertGetCfgOutputValue values) Results (lostIn values)) := by
  rw [convertGetCfgOutputValue, withCapacity, ExceptT.run_bind_lift]
  cases values with
  | nil =>
      refine .allocThen fun address => .ofPure fun blocks holds => ?_
      refine ⟨[], fact_mul_apply.mpr ⟨rfl, [], none, fact_mul_apply.mpr ⟨⟨rfl, by simp⟩, ?_⟩⟩⟩
      have empty : (Buffer 0 [] none * Items [] : Owns Pri) = 1 := by
        rw [Buffer, fact_of ⟨rfl, rfl⟩, one_mul]
        rfl
      exact empty.symm ▸ holds
  | cons v values =>
      rw [if_neg (by simp), bind_assoc]
      refine .allocThen fun address => ?_
      have looped := convertLoop_spec address (v :: values) [] (Nat.le_of_eq (Nat.zero_add _))
      rw [pure_bind, Ffi.convertGetCfgOutputValue, ← bind_pure (List.mapM _ _)]
      refine outcome_bind looped (fun _ _ => rfl) fun _ converted same => ?_
      refine .ofEx fun items => .ofFact fun values_ => ?_
      have count : items.length = (v :: values).length := by
        rw [← length_mapM same, ← values_, List.length_map]
      rw [ExceptT.run_lift, map_eq_pure_bind, ← count]
      refine .allocThen fun results => .ofPure fun blocks holds => ?_
      have some_ : items ≠ [] := List.ne_nil_of_length_pos (by rw [count]; exact Nat.succ_pos _)
      exact ⟨converted, fact_mul_apply.mpr ⟨rfl, items, some address,
        fact_mul_apply.mpr ⟨⟨values_, by simpa using some_⟩, holds⟩⟩⟩

/-! ## Reading gives the results back -/

section Reading

variable {heap : Heap (Cell Pri)}

theorem readText_eq {address : Nat} {text : CText} (has : heap.Has (Text address text)) :
    readText address heap = some (text, heap) :=
  bind_runs has.read

theorem readReason_eq {address : Option Nat} {r : Option (Ffi.ConfigValueReason Pri)}
    (has : heap.Has (OptReason address r)) : readReason address heap = some (r, heap) := by
  cases address with
  | none =>
      cases r with
      | none => rfl
      | some r => exact has.not_false.elim
  | some address =>
      cases r with
      | none => exact has.not_false.elim
      | some r =>
          obtain ⟨raw, has⟩ := Heap.Has.ofEx has
          obtain ⟨⟨pri, isNeg⟩, has⟩ := has.ofFact
          rw [readReason, bind_runs has.left.read]
          simp only
          rw [bind_runs (readText_eq has.right.right.left), bind_runs (readText_eq has.right.left),
            bind_runs (readText_eq has.right.right.right), pri, isNeg]
          rfl

theorem readItems_eq (items : List (ConfigValue × Ffi.ConfigValue Pri)) (has : heap.Has (Items items)) :
    readItems (items.map Prod.fst) heap = some (items.map Prod.snd, heap) := by
  induction items with
  | nil => rfl
  | cons item items ih =>
      have whole : heap.Has (Item item.1 item.2 * Items items) := has
      have first := whole.left
      rw [List.map_cons, readItems, bind_runs (readText_eq first.left),
        bind_runs (readText_eq first.right.left), bind_runs (readText_eq first.right.right.left),
        bind_runs (readReason_eq first.right.right.right), bind_runs (ih whole.right)]
      rfl

/-- A caller reads through the pointer what the results were converted to. -/
theorem readConfigValues_eq {address : Nat} {values : List (Ffi.ConfigValue Pri)}
    (has : heap.Has (Results address values)) :
    readConfigValues address heap = some (values, heap) := by
  obtain ⟨items, has⟩ := Heap.Has.ofEx has
  obtain ⟨ptr, has⟩ := has.ofEx
  obtain ⟨⟨same, -⟩, has⟩ := has.ofFact
  rw [← same, readConfigValues, bind_runs has.left.read]
  cases ptr with
  | none =>
      have empty := (has.right.ofFact).1.2
      obtain rfl := List.map_eq_nil_iff.mp empty
      rfl
  | some address =>
      simp only
      rw [bind_runs has.right.left.read]
      have whole : (items.map Prod.fst).take items.length = items.map Prod.fst :=
        List.take_of_length_le (by simp)
      simp only [List.length_map, Nat.le_refl, if_true, whole]
      exact readItems_eq items has.right.right

end Reading

end Eafcc.Ffi.Raw
