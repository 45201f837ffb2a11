import Eafcc.CfgCenter.Namespace
import Eafcc.Storage.Filesystem

namespace Eafcc.Ffi

open Eafcc.RuleEngine Eafcc.CfgCenter Eafcc.Storage

/-! # The functions that are exported to other languages -/

/-- What a pointer to a C string refers to, up to the terminating NUL. -/
abbrev CText := List UInt8

inductive FFIError where
  | stringConvertNulError
  | stringConvertUtf8Error
deriving Repr, DecidableEq

def utf8Bytes (text : Str) : List UInt8 := (toUtf8 text).data.toList

def CText.toStr (text : CText) : Except FFIError Str :=
  match fromUtf8 ⟨text.toArray⟩ with
  | some decoded => .ok decoded
  | none => .error .stringConvertUtf8Error

/-- The new C string, unless the text holds a NUL. -/
def CText.new (text : Str) : Except FFIError CText :=
  if 0 ∈ utf8Bytes text then .error .stringConvertNulError else .ok (utf8Bytes text)

theorem utf8Bytes_toStr {bytes : CText} {text : Str} (decoded : bytes.toStr = .ok text) :
    utf8Bytes text = bytes := by
  unfold CText.toStr fromUtf8 String.fromUTF8? at decoded
  split at decoded
  · rename_i found
    simp only [Except.ok.injEq] at decoded
    subst decoded
    split at found
    · simp only [Option.map_some, Option.some.injEq] at found
      rw [← found, utf8Bytes, toUtf8, String.ofList_toList]
      rfl
    · cases found
  · cases decoded

theorem toStr_utf8Bytes (text : Str) : CText.toStr (utf8Bytes text) = .ok text := by
  have same : (⟨(utf8Bytes text).toArray⟩ : Bytes) = toUtf8 text := by
    simp [utf8Bytes]
  simp only [CText.toStr, same, fromUtf8_toUtf8]

/-! ## NUL bytes -/

def nul : Char := Char.ofNat 0

theorem utf8Bytes_eq (text : Str) : utf8Bytes text = text.flatMap String.utf8EncodeChar := by
  simp [utf8Bytes, toUtf8, List.utf8Encode]

theorem ofNat_ne_zero {n : Nat} (positive : 0 < n) (byte : n < 256) : 0 ≠ UInt8.ofNat n := by
  intro zero
  have same := congrArg UInt8.toNat zero
  rw [UInt8.toNat_ofNat', Nat.mod_eq_of_lt byte] at same
  exact positive.ne same

/-- Only the encoding of the NUL has a zero byte: all others start with and are
continued by bytes with a bit set. -/
theorem eq_nul_of_zero_mem {c : Char} (present : 0 ∈ String.utf8EncodeChar c) : c = nul := by
  by_cases small : c.val.toNat ≤ 127
  · simp only [String.utf8EncodeChar, small, if_true, List.mem_singleton] at present
    by_contra other
    have positive : 0 < c.val.toNat := by
      refine Nat.pos_of_ne_zero fun zero => other (Char.ext ?_)
      exact UInt32.toNat_inj.mp zero
    exact ofNat_ne_zero positive (by omega) present
  · simp only [String.utf8EncodeChar, small, if_false] at present
    have continuation : ∀ n, 0 ≠ UInt8.ofNat (n % 64 + 128) :=
      fun n => ofNat_ne_zero (by omega) (by omega)
    have second : ∀ n, 0 ≠ UInt8.ofNat (n % 32 + 192) := fun n => ofNat_ne_zero (by omega) (by omega)
    have third : ∀ n, 0 ≠ UInt8.ofNat (n % 16 + 224) := fun n => ofNat_ne_zero (by omega) (by omega)
    have fourth : ∀ n, 0 ≠ UInt8.ofNat (n % 8 + 240) := fun n => ofNat_ne_zero (by omega) (by omega)
    split at present
    · simp only [List.mem_cons, List.not_mem_nil, continuation, second, or_self] at present
    · split at present
      · simp only [List.mem_cons, List.not_mem_nil, continuation, third, or_self] at present
      · simp only [List.mem_cons, List.not_mem_nil, continuation, fourth, or_self] at present

theorem zero_mem_utf8Bytes {text : Str} : 0 ∈ utf8Bytes text ↔ nul ∈ text := by
  rw [utf8Bytes_eq, List.mem_flatMap]
  constructor
  · intro present
    obtain ⟨c, member, zero⟩ := present
    rwa [← eq_nul_of_zero_mem zero]
  · intro member
    exact ⟨nul, member, by decide⟩

theorem CText.new_iff {text : Str} {bytes : CText} :
    CText.new text = .ok bytes ↔ nul ∉ text ∧ utf8Bytes text = bytes := by
  unfold CText.new
  simp only [zero_mem_utf8Bytes]
  split <;> simp [*]

/-- The part of a text before its first NUL. -/
def untilNul (text : Str) : Str := text.takeWhile fun c => c ≠ nul

theorem untilNul_eq_self {text : Str} (plain : nul ∉ text) : untilNul text = text := by
  refine List.takeWhile_eq_self_iff.mpr fun c member => ?_
  simpa using fun same : c = nul => plain (same ▸ member)

theorem nul_notMem_untilNul (text : Str) : nul ∉ untilNul text := by
  intro present
  simpa using List.mem_takeWhile_imp present

/-- The bytes before the first zero byte are those of the text before its first NUL. -/
theorem takeWhile_utf8Bytes (text : Str) :
    ((utf8Bytes text).takeWhile fun byte => byte ≠ 0) = utf8Bytes (untilNul text) := by
  rw [utf8Bytes_eq, utf8Bytes_eq, untilNul]
  induction text with
  | nil => rfl
  | cons c text ih =>
      rw [List.flatMap_cons]
      by_cases ends : c = nul
      · subst ends
        rw [List.takeWhile_cons_of_neg (by simp)]
        rfl
      · have bytes : ∀ byte ∈ String.utf8EncodeChar c, decide (byte ≠ 0) = true := by
          intro byte member
          simpa using fun zero : byte = 0 => ends (eq_nul_of_zero_mem (zero ▸ member))
        rw [List.takeWhile_append_of_pos bytes, ih, List.takeWhile_cons_of_pos (by simpa using ends),
          List.flatMap_cons]

structure ConfigValueReason (Pri : Type) where
  pri : Pri
  isNeg : Bool
  linkPath : CText
  rulePath : CText
  resPath : CText

structure ConfigValue (Pri : Type) where
  key : CText
  contentType : CText
  value : CText
  reason : Option (ConfigValueReason Pri)

variable {Pri : Type}

def convertReason : Option (IdxLinkItem Pri) → Except FFIError (Option (ConfigValueReason Pri))
  | some r => do
      let rulePath ← CText.new r.rulePath
      let linkPath ← CText.new r.linkPath
      let resPath ← CText.new r.absResPath
      return some { pri := r.pri, isNeg := r.isNeg, rulePath, linkPath, resPath }
  | none => return none

/-- The body of the loop over the results. -/
def convertResult (v : CFGResult Pri) : Except FFIError (ConfigValue Pri) := do
  let reason ← convertReason v.reason
  let contentType ← CText.new v.value.contentType
  let key ← CText.new v.value.key
  let value ← CText.new v.value.value
  return { contentType, key, value, reason }

def convertGetCfgInputValue (keys : List CText) : Except FFIError (List Str) := keys.mapM CText.toStr

def convertGetCfgOutputValue (values : List (CFGResult Pri)) :
    Except FFIError (List (ConfigValue Pri)) :=
  values.mapM convertResult

def lift {α : Type} : Except FFIError α → Rust FFIError α
  | .ok value => .ok value
  | .error reason => .error (.error reason)

/-- A query through the foreign interface. `get` is the query of the handle with
the context and the flags of the call. An error stands for a null pointer. -/
def getConfig (get : List Str → Option (List (CFGResult Pri))) (keys : List CText) :
    Rust FFIError (List (ConfigValue Pri)) := do
  let keys ← lift (convertGetCfgInputValue keys)
  match get keys with
  | none => Rust.panics
  | some values => lift (convertGetCfgOutputValue values)

/-! ## Conversions that fail exactly on bad input -/

/-- The value, or the one reason to fail where the input is bad. -/
def Converts {α : Type} (reason : FFIError) (bad : Prop) (value : α) (result : Except FFIError α) : Prop :=
  (bad ∧ result = .error reason) ∨ (¬ bad ∧ result = .ok value)

section Converts

variable {α β : Type} {reason : FFIError} {bad bad' : Prop} {value : α} {result : Except FFIError α}

theorem Converts.map (first : Converts reason bad value result) (f : α → β) :
    Converts reason bad (f value) (result >>= fun value => pure (f value)) := by
  rcases first with ⟨isBad, rfl⟩ | ⟨good, rfl⟩
  · exact .inl ⟨isBad, rfl⟩
  · exact .inr ⟨good, rfl⟩

theorem Converts.bind {next : α → Except FFIError β} {value' : β} (first : Converts reason bad value result)
    (rest : Converts reason bad' value' (next value)) :
    Converts reason (bad ∨ bad') value' (result >>= next) := by
  rcases first with ⟨isBad, rfl⟩ | ⟨good, rfl⟩
  · exact .inl ⟨.inl isBad, rfl⟩
  · rcases rest with ⟨isBad, same⟩ | ⟨good', same⟩
    · exact .inl ⟨.inr isBad, same⟩
    · exact .inr ⟨fun either => either.elim good good', same⟩

theorem Converts.mapM {bad : α → Prop} {convert : α → Except FFIError β} {f : α → β}
    (each : ∀ item, Converts reason (bad item) (f item) (convert item)) (items : List α) :
    Converts reason (∃ item ∈ items, bad item) (items.map f) (items.mapM convert) := by
  induction items with
  | nil => exact .inr ⟨fun some_ => by simp at some_, rfl⟩
  | cons item items ih =>
      rw [List.mapM_cons, List.exists_mem_cons_iff]
      exact (each item).bind (ih.map (f item :: ·))

end Converts

theorem CText.new_converts (text : Str) :
    Converts .stringConvertNulError (nul ∈ text) (utf8Bytes text) (CText.new text) := by
  by_cases present : nul ∈ text
  · exact .inl ⟨present, if_pos (zero_mem_utf8Bytes.mpr present)⟩
  · exact .inr ⟨present, if_neg (mt zero_mem_utf8Bytes.mp present)⟩

/-- A text of the reason cannot be passed on. -/
def UnsayableReason (r : IdxLinkItem Pri) : Prop := nul ∈ r.rulePath ∨ nul ∈ r.linkPath ∨ nul ∈ r.absResPath

/-- A text of the result cannot be passed on. -/
def Unsayable (v : CFGResult Pri) : Prop :=
  (∃ r, v.reason = some r ∧ UnsayableReason r) ∨ nul ∈ v.value.contentType ∨ nul ∈ v.value.key ∨
    nul ∈ v.value.value

def reasonOf (r : IdxLinkItem Pri) : ConfigValueReason Pri :=
  { pri := r.pri, isNeg := r.isNeg, linkPath := utf8Bytes r.linkPath, rulePath := utf8Bytes r.rulePath
    resPath := utf8Bytes r.absResPath }

def configValueOf (v : CFGResult Pri) : ConfigValue Pri :=
  { key := utf8Bytes v.value.key, contentType := utf8Bytes v.value.contentType
    value := utf8Bytes v.value.value, reason := v.reason.map reasonOf }

theorem convertReason_converts (reason : Option (IdxLinkItem Pri)) :
    Converts .stringConvertNulError (∃ r, reason = some r ∧ UnsayableReason r) (reason.map reasonOf)
      (convertReason reason) := by
  cases reason with
  | none => exact .inr ⟨fun some_ => by simp at some_, rfl⟩
  | some r =>
      have last := (CText.new_converts r.absResPath).map fun resPath =>
        (some { reasonOf r with resPath } : Option (ConfigValueReason Pri))
      simp only [Option.some.injEq, exists_eq_left']
      exact (CText.new_converts r.rulePath).bind ((CText.new_converts r.linkPath).bind last)

theorem convertResult_converts (v : CFGResult Pri) :
    Converts .stringConvertNulError (Unsayable v) (configValueOf v) (convertResult v) := by
  have last := (CText.new_converts v.value.value).map fun value => { configValueOf v with value }
  exact (convertReason_converts v.reason).bind ((CText.new_converts v.value.contentType).bind
    ((CText.new_converts v.value.key).bind last))

/-- The keys are read as texts, or one of them is not UTF-8. -/
theorem convertGetCfgInputValue_cases (keys : List CText) :
    (∃ texts, keys = texts.map utf8Bytes ∧ convertGetCfgInputValue keys = .ok texts) ∨
    ((∃ key ∈ keys, ∀ text, utf8Bytes text ≠ key) ∧
      convertGetCfgInputValue keys = .error .stringConvertUtf8Error) := by
  have each : ∀ key : CText, Converts .stringConvertUtf8Error (∀ text, utf8Bytes text ≠ key)
      (key.toStr.toOption.getD []) key.toStr := by
    intro key
    cases decoded : key.toStr with
    | ok text => exact .inr ⟨fun none_ => none_ text (utf8Bytes_toStr decoded), rfl⟩
    | error reason =>
        refine .inl ⟨fun text same => ?_, ?_⟩
        · rw [← same, toStr_utf8Bytes] at decoded
          cases decoded
        · cases reason with
          | stringConvertUtf8Error => rfl
          | stringConvertNulError =>
              unfold CText.toStr at decoded
              split at decoded <;> cases decoded
  rcases Converts.mapM each keys with ⟨bad, failed⟩ | ⟨good, read⟩
  · exact .inr ⟨bad, failed⟩
  · refine .inl ⟨_, ?_, read⟩
    rw [List.map_map]
    refine (List.map_id keys).symm.trans (List.map_congr_left fun key member => ?_)
    obtain ⟨text, same⟩ := not_forall_not.mp fun none_ => good ⟨key, member, none_⟩
    rw [Function.comp_apply, ← same, toStr_utf8Bytes]
    rfl

/-! ## Queries that answer key by key -/

/-- The results for a list of keys are those for each of them in turn, under the
key asked for, or the query panics on any keys. -/
def AnswersPerKey (get : List Str → Option (List (CFGResult Pri))) : Prop :=
  (∀ keys, get keys = none) ∨
    ∃ entries : Str → List (CFGResult Pri), (∀ keys, get keys = some (keys.flatMap entries)) ∧
      ∀ key, ∀ result ∈ entries key, result.value.key = key

/-- The values of one key, if the call returns some. -/
def answered (get : List Str → Option (List (CFGResult Pri))) (key : CText) :
    Option (List (ConfigValue Pri)) :=
  (getConfig get [key]).toOption

variable {get : List Str → Option (List (CFGResult Pri))} {entries : Str → List (CFGResult Pri)}

theorem toOption_bind {ε α β : Type} (first : Except ε α) (rest : α → Except ε β) :
    (first >>= rest).toOption = first.toOption.bind fun value => (rest value).toOption := by
  cases first <;> rfl

theorem toOption_eq_some {ε α : Type} {result : Except ε α} {value : α} :
    result.toOption = some value ↔ result = .ok value := by
  cases result <;> simp [Except.toOption]

theorem bind_eq_ok {ε α β : Type} {first : Except ε α} {rest : α → Except ε β} {value : β} :
    first >>= rest = .ok value ↔ ∃ middle, first = .ok middle ∧ rest middle = .ok value := by
  cases first <;> simp [bind, Except.bind]

theorem toOption_lift {α : Type} (result : Except FFIError α) : (lift result).toOption = result.toOption := by
  cases result <;> rfl

def convertKey (entries : Str → List (CFGResult Pri)) (key : CText) : Option (List (ConfigValue Pri)) :=
  key.toStr.toOption.bind fun text => ((entries text).mapM convertResult).toOption

/-- The values of all keys, if there are some for each. -/
def collect {α : Type} (values : CText → Option (List α)) : List CText → Option (List α)
  | [] => some []
  | key :: keys => (values key).bind fun group => (collect values keys).map (group ++ ·)

theorem collect_eq_some {α : Type} {values : CText → Option (List α)} {keys : List CText}
    {all : List α} : collect values keys = some all ↔
      (∀ key ∈ keys, values key ≠ none) ∧ all = keys.flatMap fun key => (values key).getD [] := by
  induction keys generalizing all with
  | nil => simp [collect, eq_comm]
  | cons key keys ih =>
      cases found : values key with
      | none => simp [collect, found]
      | some group =>
          simp only [collect, found, Option.bind_some, Option.map_eq_some_iff, ih, List.forall_mem_cons,
            List.flatMap_cons, Option.getD_some]
          constructor
          · intro both
            obtain ⟨rest, ⟨present, rfl⟩, rfl⟩ := both
            exact ⟨⟨by simp, present⟩, rfl⟩
          · intro both
            obtain ⟨⟨-, present⟩, rfl⟩ := both
            exact ⟨_, ⟨present, rfl⟩, rfl⟩

theorem getConfig_entries (all : ∀ keys, get keys = some (keys.flatMap entries)) (keys : List CText) :
    (getConfig get keys).toOption = collect (convertKey entries) keys := by
  have whole : (getConfig get keys).toOption = (keys.mapM CText.toStr).toOption.bind fun texts =>
      ((texts.flatMap entries).mapM convertResult).toOption := by
    simp only [getConfig, all, toOption_bind, toOption_lift]
    rfl
  rw [whole]
  clear whole
  induction keys with
  | nil => rfl
  | cons key keys ih =>
      rw [collect, ← ih, List.mapM_cons, convertKey, toOption_bind]
      cases key.toStr with
      | error reason => rfl
      | ok text =>
          simp only [Except.toOption, Option.bind_some]
          cases keys.mapM CText.toStr with
          | error reason => cases (entries text).mapM convertResult <;> rfl
          | ok texts =>
              simp only [Option.bind_some, pure, Except.pure, List.flatMap_cons, List.mapM_append,
                bind, Except.bind]
              cases (entries text).mapM convertResult with
              | error reason => rfl
              | ok group => cases (texts.flatMap entries).mapM convertResult <;> rfl

theorem answered_entries (all : ∀ keys, get keys = some (keys.flatMap entries)) (key : CText) :
    answered get key = convertKey entries key := by
  rw [answered, getConfig_entries all, collect]
  cases convertKey entries key <;> simp [collect]

theorem getConfig_panics (panics : ∀ keys, get keys = none) (keys : List CText) :
    (getConfig get keys).toOption = none := by
  simp only [getConfig, panics, toOption_bind]
  cases (lift (convertGetCfgInputValue keys)).toOption <;> rfl

/-- A call answers with the values of each key in turn. -/
theorem getConfig_perKey (perKey : AnswersPerKey get) {keys : List CText} (nonempty : keys ≠ []) :
    (getConfig get keys).toOption = collect (answered get) keys := by
  rcases perKey with panics | ⟨entries, all, -⟩
  · obtain ⟨key, rest, rfl⟩ := List.exists_cons_of_ne_nil nonempty
    rw [getConfig_panics panics, collect, answered, getConfig_panics panics]
    rfl
  · rw [getConfig_entries all]
    congr 1
    funext key
    exact (answered_entries all key).symm

theorem mem_mapM {α β : Type} {f : α → Except FFIError β} {items : List α} {results : List β}
    (converted : items.mapM f = .ok results) {result : β} (member : result ∈ results) :
    ∃ item ∈ items, f item = .ok result := by
  induction items generalizing results with
  | nil =>
      cases converted
      cases member
  | cons item items ih =>
      rw [List.mapM_cons] at converted
      cases first : f item with
      | error reason => simp [first, bind, Except.bind] at converted
      | ok value =>
          cases rest : items.mapM f with
          | error reason => simp [first, rest, bind, Except.bind] at converted
          | ok values =>
              simp only [first, rest, bind, Except.bind, pure, Except.pure, Except.ok.injEq] at converted
              subst converted
              rcases List.mem_cons.mp member with rfl | later
              · exact ⟨item, by simp, first⟩
              · obtain ⟨item', listed, same⟩ := ih rest later
                exact ⟨item', by simp [listed], same⟩

theorem convertResult_key {v : CFGResult Pri} {converted : ConfigValue Pri}
    (ok : convertResult v = .ok converted) : converted.key = utf8Bytes v.value.key := by
  have whole := toOption_eq_some.mpr ok
  simp only [convertResult, toOption_bind, Option.bind_eq_some_iff] at whole
  obtain ⟨reason, -, contentType, -, key, new, value, -, same⟩ := whole
  cases same
  exact (CText.new_iff.mp (toOption_eq_some.mp new)).2.symm

/-- The values that answer a key are under that key. -/
theorem answered_key (perKey : AnswersPerKey get) {key : CText} {values : List (ConfigValue Pri)}
    (found : answered get key = some values) {value : ConfigValue Pri} (member : value ∈ values) :
    value.key = key := by
  rcases perKey with panics | ⟨entries, all, own⟩
  · rw [answered, getConfig_panics panics] at found
    cases found
  · rw [answered_entries all, convertKey, Option.bind_eq_some_iff] at found
    obtain ⟨text, decoded, converted⟩ := found
    obtain ⟨result, listed, same⟩ := mem_mapM (toOption_eq_some.mp converted) member
    rw [convertResult_key same, own text result listed]
    exact utf8Bytes_toStr (toOption_eq_some.mp decoded)

/-! ## The querier -/

theorem nextKey_key {store : MemStorage Pri} {needExplain : Bool} {key : Str} {links : List (IdxLinkItem Pri)}
    {result : CFGResult Pri} (shown : nextKey store needExplain key links = some result) :
    result.value.key = key := by
  induction links with
  | nil => cases shown
  | cons link links ih =>
      unfold nextKey at shown
      split at shown
      · exact ih shown
      · split at shown
        · exact ih shown
        · rename_i kvItem found
          split at shown
          · cases shown
          · cases shown
            have same := List.find?_some found
            exact eq_of_beq same

section Querier

variable [LinearOrder Pri] (sort : SortUnstableBy Pri) (store : MemStorage Pri)

/-- The entries for one key. -/
def entriesOf (links : List (IdxLinkItem Pri)) (viewMode : ViewMode) (needExplain : Bool) (key : Str) :
    List (CFGResult Pri) :=
  if links.length = 0 then []
  else
    match viewMode with
    | .overlaidView => (nextKey store needExplain key (sort compareLinks links)).toList
    | .allLinkedResView => fetchResByAllLinkedResView store [key] links needExplain

theorem get_eq (rules : List IdxRuleItem) (whoami : MatchContext) (keys : List Str)
    (viewMode : ViewMode) (needExplain : Bool) :
    Querier.get sort store rules whoami keys viewMode needExplain =
      (collectActLinks store whoami rules).map fun links =>
        keys.flatMap (entriesOf sort store links viewMode needExplain) := by
  unfold Querier.get
  cases collectActLinks store whoami rules with
  | none => rfl
  | some links =>
      simp only [Option.map_some]
      by_cases none_ : links.length = 0
      · simp [none_, entriesOf]
      · cases viewMode with
        | overlaidView =>
            have each : entriesOf sort store links .overlaidView needExplain = fun key =>
                (nextKey store needExplain key (sort compareLinks links)).toList := by
              funext key
              simp [entriesOf, none_]
            rw [each, if_neg none_]
            exact congrArg some (List.filterMap_eq_flatMap_toList _ _)
        | allLinkedResView =>
            have each : entriesOf sort store links .allLinkedResView needExplain = fun key =>
                fetchResByAllLinkedResView store [key] links needExplain := by
              funext key
              simp [entriesOf, none_]
            simp [each, none_, fetchResByAllLinkedResView]

theorem entriesOf_key {links : List (IdxLinkItem Pri)} {viewMode : ViewMode} {needExplain : Bool}
    {key : Str} {result : CFGResult Pri}
    (member : result ∈ entriesOf sort store links viewMode needExplain key) : result.value.key = key := by
  unfold entriesOf at member
  split at member
  · cases member
  · cases viewMode with
    | overlaidView => exact nextKey_key (Option.mem_toList.mp member)
    | allLinkedResView =>
        simp only [fetchResByAllLinkedResView, List.flatMap_singleton, List.mem_flatMap] at member
        obtain ⟨link, -, member⟩ := member
        split at member
        · cases member
        · simp only [List.mem_map, List.mem_filter, beq_iff_eq] at member
          obtain ⟨kvItem, ⟨-, same⟩, rfl⟩ := member
          exact same

theorem get_answersPerKey (rules : List IdxRuleItem) (whoami : MatchContext) (viewMode : ViewMode)
    (needExplain : Bool) :
    AnswersPerKey fun keys => Querier.get sort store rules whoami keys viewMode needExplain := by
  have whole := fun keys => get_eq sort store rules whoami keys viewMode needExplain
  cases collected : collectActLinks store whoami rules with
  | none =>
      rw [collected] at whole
      exact .inl whole
  | some links =>
      rw [collected] at whole
      exact .inr ⟨_, whole, fun key result member => entriesOf_key sort store member⟩

end Querier

end Eafcc.Ffi
