import Eafcc.Ffi

namespace Eafcc.Go

open Eafcc.CfgCenter Eafcc.Ffi

/-! # Queries of the Go binding -/

abbrev GoString := List UInt8

abbrev GoMap (α : Type) := Finmap fun _ : GoString => α

structure CFGValueReason (Pri : Type) where
  pri : Pri
  isNeg : Bool
  linkPath : GoString
  rulePath : GoString
  resPath : GoString

structure CFGValue (Pri : Type) where
  key : GoString
  contextType : GoString
  value : GoString
  reason : Option (CFGValueReason Pri)

inductive GoError where
  | noInputKeys
deriving Repr, DecidableEq

variable {Pri : Type}

/-- What the library sees of a string that is passed to it. -/
def cString (text : GoString) : CText := text.takeWhile fun byte => byte ≠ 0

def convertConfigValue (t : ConfigValue Pri) : CFGValue Pri where
  key := t.key
  contextType := t.contentType
  value := t.value
  reason := t.reason.map fun r =>
    { pri := r.pri, isNeg := r.isNeg, rulePath := r.rulePath, linkPath := r.linkPath, resPath := r.resPath }

/-- Appends a value to those of its key. -/
def appendValue (ret : GoMap (List (CFGValue Pri))) (value : CFGValue Pri) :
    GoMap (List (CFGValue Pri)) :=
  ret.insert value.key ((ret.lookup value.key).getD [] ++ [value])

def convertGetCFGOutput (values : List (ConfigValue Pri)) : GoMap (List (CFGValue Pri)) :=
  (values.map convertConfigValue).foldl appendValue ∅

/-- `get` is the library's query with the context and the flags of the call. A null
pointer is dereferenced, which panics. -/
def getCfgRawNoCache (get : List Str → Option (List (CFGResult Pri))) (keys : List GoString) :
    Rust GoError (GoMap (List (CFGValue Pri))) :=
  if keys = [] then Rust.fail .noInputKeys
  else
    match getConfig get (keys.map cString) with
    | .ok values => .ok (convertGetCFGOutput values)
    | .error _ => Rust.panics

/-! ## The values of each key -/

theorem cString_cString (text : GoString) : cString (cString text) = cString text := by
  simp [cString, List.takeWhile_takeWhile]

/-- A list of values as the entry of a map, which has none for no values. -/
def entry (values : List (CFGValue Pri)) : Option (List (CFGValue Pri)) :=
  if values.length = 0 then none else some values

theorem lookup_appendAll (values : List (CFGValue Pri)) (key : GoString) :
    (values.foldl appendValue (∅ : GoMap (List (CFGValue Pri)))).lookup key =
      entry (values.filter fun value => value.key = key) := by
  induction values using List.reverseRecOn with
  | nil => rfl
  | append_singleton values value ih =>
      rw [List.foldl_append, List.foldl_cons, List.foldl_nil, appendValue, List.filter_append]
      by_cases same : value.key = key
      · subst same
        rw [Finmap.lookup_insert, ih]
        cases earlier : values.filter fun other => other.key = value.key with
        | nil => simp [entry]
        | cons first rest => simp [entry]
      · rw [Finmap.lookup_insert_of_ne _ (Ne.symm same), ih]
        simp [same]

variable {get : List Str → Option (List (CFGResult Pri))}

/-- The values that a query for one key gives, as far as it returns. -/
def valuesOf (get : List Str → Option (List (CFGResult Pri))) (key : CText) : List (CFGValue Pri) :=
  ((answered get key).getD []).map convertConfigValue

theorem valuesOf_key (perKey : AnswersPerKey get) {key : CText} {value : CFGValue Pri}
    (member : value ∈ valuesOf get key) : value.key = key := by
  obtain ⟨raw, listed, rfl⟩ := List.mem_map.mp member
  cases found : answered get key with
  | none => simp [found] at listed
  | some values =>
      rw [found, Option.getD_some] at listed
      exact answered_key perKey found listed

/-- Of groups with labels of their own, a group is found as often as it was put in. -/
theorem filter_flatMap_own {α β γ : Type} [BEq α] [LawfulBEq α] [DecidableEq γ] {groups : α → List β}
    {label : α → γ} (injective : Function.Injective label) {key : β → γ}
    (own : ∀ group, ∀ item ∈ groups group, key item = label group) (items : List α) (group : α) :
    ((items.flatMap groups).filter fun item => key item = label group) =
      (List.replicate (items.count group) (groups group)).flatten := by
  induction items with
  | nil => rfl
  | cons other items ih =>
      rw [List.flatMap_cons, List.filter_append, ih]
      by_cases same : other = group
      · subst same
        have all : ((groups other).filter fun item => key item = label other) = groups other :=
          List.filter_eq_self.mpr fun item member => by simpa using own other item member
        rw [all, List.count_cons_self, List.replicate_succ, List.flatten_cons]
      · have others : ((groups other).filter fun item => key item = label group) = [] := by
          refine List.filter_eq_nil_iff.mpr fun item member => ?_
          rw [own other item member]
          simpa using fun same' => same (injective same')
        rw [others, List.count_cons_of_ne same, List.nil_append]

/-- The values of a key once for each time that the library is asked for it. -/
theorem filter_flatMap_valuesOf (perKey : AnswersPerKey get) (keys : List CText) (key : CText) :
    ((keys.flatMap (valuesOf get)).filter fun value => value.key = key) =
      (List.replicate (keys.count key) (valuesOf get key)).flatten :=
  filter_flatMap_own Function.injective_id (fun _ _ => valuesOf_key perKey) keys key

theorem getCfgRawNoCache_collect (perKey : AnswersPerKey get) {keys : List GoString}
    (nonempty : keys ≠ []) : getCfgRawNoCache get keys =
      match collect (answered get) (keys.map cString) with
      | some values => .ok (convertGetCFGOutput values)
      | none => Rust.panics := by
  have mapped : keys.map cString ≠ [] := by simpa using nonempty
  rw [← getConfig_perKey perKey mapped, getCfgRawNoCache, if_neg nonempty]
  cases getConfig get (keys.map cString) <;> rfl

theorem getCfgRawNoCache_eq_ok (perKey : AnswersPerKey get) {keys : List GoString} (nonempty : keys ≠ [])
    {t : GoMap (List (CFGValue Pri))} : getCfgRawNoCache get keys = .ok t ↔
      (∀ key ∈ keys, answered get (cString key) ≠ none) ∧
        t = ((keys.map cString).flatMap (valuesOf get)).foldl appendValue ∅ := by
  rw [getCfgRawNoCache_collect perKey nonempty]
  cases all : collect (answered get) (keys.map cString) with
  | some values =>
      obtain ⟨present, rfl⟩ := collect_eq_some.mp all
      rw [List.forall_mem_map] at present
      simp only [Except.ok.injEq, convertGetCFGOutput, List.map_flatMap, eq_comm (a := t)]
      exact ⟨fun same => ⟨present, same⟩, fun both => both.2⟩
  | none =>
      simp only [Rust.panics, reduceCtorEq, false_iff, not_and]
      intro present
      have found := collect_eq_some.mpr ⟨List.forall_mem_map.mpr present, rfl⟩
      rw [all] at found
      cases found

/-- A query for some keys does not return if that for one of them does not. -/
theorem getCfgRawNoCache_error (perKey : AnswersPerKey get) {keys : List GoString} (nonempty : keys ≠ [])
    {failure : Failure GoError} (fails : getCfgRawNoCache get keys = .error failure) :
    failure = .panic ∧ ∃ key ∈ keys, answered get (cString key) = none := by
  constructor
  · rw [getCfgRawNoCache_collect perKey nonempty] at fails
    split at fails
    · cases fails
    · cases fails
      rfl
  · by_contra present
    push Not at present
    have returns := (getCfgRawNoCache_eq_ok perKey nonempty).mpr ⟨present, rfl⟩
    rw [fails] at returns
    cases returns

theorem getCfgRawNoCache_lookup (perKey : AnswersPerKey get) {keys : List GoString} (nonempty : keys ≠ [])
    {t : GoMap (List (CFGValue Pri))} (ok : getCfgRawNoCache get keys = .ok t) (key : GoString) :
    t.lookup key =
      entry (List.replicate ((keys.map cString).count key) (valuesOf get key)).flatten := by
  rw [((getCfgRawNoCache_eq_ok perKey nonempty).mp ok).2, lookup_appendAll,
    filter_flatMap_valuesOf perKey]

end Eafcc.Go
