import Eafcc.CfgCenter.AllLinked
import Eafcc.Go.GetCfg

namespace Eafcc.Go

open Eafcc.RuleEngine Eafcc.CfgCenter Eafcc.Ffi Eafcc.Model Eafcc.Storage

/-! # Null results

Where the library cannot answer a query it returns null.  The three functions of the
binding pass the result to `convertGetCFGOutput`, which reads it.
-/

variable {Pri : Type}

section Functions

variable [LinearOrder Pri] (sort : SortUnstableBy Pri) (rules : List IdxRuleItem) (whoami : MatchContext)
  (keys : List GoString) (viewMode : ViewMode) (needExplain : Bool)

def Namespace.getCfgRawNoCache (cc : NamespaceScopedCFGCenter Pri) :
    Rust GoError (GoMap (List (CFGValue Pri))) :=
  Go.getCfgRawNoCache (fun texts => cc.getCfg sort rules whoami texts viewMode needExplain) keys

def Differ.getFromOld (d : CfgCenter.Differ Pri) : Rust GoError (GoMap (List (CFGValue Pri))) :=
  Go.getCfgRawNoCache (fun texts => d.getFromOld sort rules whoami texts viewMode needExplain) keys

def Differ.getFromNew (d : CfgCenter.Differ Pri) : Rust GoError (GoMap (List (CFGValue Pri))) :=
  Go.getCfgRawNoCache (fun texts => d.getFromNew sort rules whoami texts viewMode needExplain) keys

end Functions

/-! ## What a client should get -/

def goReason (link : IdxLinkItem Pri) : CFGValueReason Pri where
  pri := link.pri
  isNeg := link.isNeg
  linkPath := utf8Bytes link.linkPath
  rulePath := utf8Bytes link.rulePath
  resPath := utf8Bytes link.absResPath

/-- An entry as a client should see it. -/
def goValue (v : CFGResult Pri) : CFGValue Pri where
  key := utf8Bytes v.value.key
  contextType := utf8Bytes v.value.contentType
  value := utf8Bytes v.value.value
  reason := v.reason.map goReason

/-- The call returns an error, or under each key the entries of the key that the query
gives for all of them. -/
def AnswersOrFails (get : List Str → Option (List (CFGResult Pri))) (keys : List GoString) :
    Rust GoError (GoMap (List (CFGValue Pri))) → Prop
  | .ok t => ∃ texts results, texts.map utf8Bytes = keys ∧ get texts = some results ∧
      ∀ key ∈ keys, t.lookup key = entry ((results.map goValue).filter fun value => value.key = key)
  | .error (.error _) => True
  | .error .panic => False

/-- The texts of an entry that become C strings. -/
def textsOf (v : CFGResult Pri) : List Str :=
  (v.reason.elim [] fun r => [r.rulePath, r.linkPath, r.absResPath]) ++
    [v.value.contentType, v.value.key, v.value.value]

def NulFree (v : CFGResult Pri) : Prop := ∀ text ∈ textsOf v, nul ∉ text

instance (v : CFGResult Pri) : Decidable (NulFree v) :=
  inferInstanceAs (Decidable (∀ text ∈ textsOf v, _))

/-- The entries that the query gives for one key. -/
def given (get : List Str → Option (List (CFGResult Pri))) (text : Str) : List (CFGResult Pri) :=
  (get [text]).getD []

/-- A key, one of `texts`, whose entries reach the client. It is cut at its first NUL,
and what is left is asked for. -/
@[mk_iff reaches_iff]
structure Reaches (get : List Str → Option (List (CFGResult Pri))) (texts : List Str) (text : Str) : Prop where
  nulFree : ∀ v ∈ given get (untilNul text), NulFree v
  cut : nul ∈ text → given get text = [] ∧ (untilNul text ∈ texts → given get (untilNul text) = [])

/-- The keys are UTF-8 and the entries of each of them reach the client. -/
def AllReach (get : List Str → Option (List (CFGResult Pri))) (keys : List GoString) : Prop :=
  ∃ texts : List Str, texts.map utf8Bytes = keys ∧ ∀ text ∈ texts, Reaches get texts text

/-! ## Conversions -/

theorem utf8Bytes_injective : Function.Injective utf8Bytes := by
  intro text other same
  have read := toStr_utf8Bytes text
  rw [same, toStr_utf8Bytes] at read
  exact (Except.ok.inj read).symm

theorem cString_utf8Bytes (text : Str) : cString (utf8Bytes text) = utf8Bytes (untilNul text) :=
  takeWhile_utf8Bytes text

/-- A result is converted exactly if no text of it holds a NUL. -/
theorem convertResult_iff {v : CFGResult Pri} {value : CFGValue Pri} :
    (∃ raw, convertResult v = .ok raw ∧ convertConfigValue raw = value) ↔ NulFree v ∧ goValue v = value := by
  obtain ⟨reason, contentType, key, text⟩ := v
  cases reason with
  | none =>
      simp [convertResult, convertReason, bind_eq_ok, CText.new_iff, NulFree, textsOf, pure, Except.pure,
        convertConfigValue, goValue]
  | some link =>
      simp [convertResult, convertReason, bind_eq_ok, CText.new_iff, NulFree, textsOf, pure, Except.pure,
        convertConfigValue, goValue, goReason]

theorem mapM_convertResult_iff {vs : List (CFGResult Pri)} {values : List (CFGValue Pri)} :
    (∃ raws, vs.mapM convertResult = .ok raws ∧ raws.map convertConfigValue = values) ↔
      (∀ v ∈ vs, NulFree v) ∧ vs.map goValue = values := by
  induction vs generalizing values with
  | nil => simp [pure, Except.pure]
  | cons v vs ih =>
      rw [List.mapM_cons, List.forall_mem_cons, List.map_cons]
      simp only [bind_eq_ok, pure, Except.pure, Except.ok.injEq]
      constructor
      · intro converted
        obtain ⟨raws, ⟨raw, first, others, rest, rfl⟩, rfl⟩ := converted
        obtain ⟨plain, same⟩ := convertResult_iff.mp ⟨raw, first, rfl⟩
        obtain ⟨plain', same'⟩ := ih.mp ⟨others, rest, rfl⟩
        exact ⟨⟨plain, plain'⟩, by rw [same, same', List.map_cons]⟩
      · intro both
        obtain ⟨⟨plain, plain'⟩, rfl⟩ := both
        obtain ⟨raw, first, same⟩ := convertResult_iff.mpr ⟨plain, rfl⟩
        obtain ⟨others, rest, same'⟩ := ih.mpr ⟨plain', rfl⟩
        exact ⟨raw :: others, ⟨raw, first, others, rest, rfl⟩, by rw [List.map_cons, same, same']⟩

theorem asked_utf8Bytes (texts : List Str) (text : Str) :
    asked (texts.map utf8Bytes) (utf8Bytes text) = (texts.map untilNul).count text := by
  have cuts : (texts.map utf8Bytes).map cString = (texts.map untilNul).map utf8Bytes := by
    simp [cString_utf8Bytes]
  rw [asked, cuts, List.count_map_of_injective _ _ utf8Bytes_injective]

theorem count_cut {texts : List Str} {text : Str} (cut : nul ∈ text) : (texts.map untilNul).count text = 0 := by
  refine List.count_eq_zero.mpr fun member => ?_
  obtain ⟨other, -, same⟩ := List.mem_map.mp member
  exact nul_notMem_untilNul other (same ▸ cut)

/-- A key without a NUL is asked for as often as it is given unless another key is cut
to it. -/
theorem count_uncut {texts : List Str} {text : Str} (plain : nul ∉ text) :
    (texts.map untilNul).count text = texts.count text ↔
      ∀ other ∈ texts, untilNul other = text → other = text := by
  have split := List.countP_eq_countP_filter_add texts (fun other => untilNul other == text)
    (fun other => other == text)
  have own : (texts.filter fun other => other == text).countP (fun other => untilNul other == text) =
      texts.count text := by
    rw [List.countP_filter, List.count]
    refine List.countP_congr fun other _ => ?_
    have self := untilNul_eq_self plain
    simp only [Bool.and_eq_true, beq_iff_eq]
    exact ⟨fun both => both.2, fun same => ⟨same ▸ self, same⟩⟩
  rw [own] at split
  rw [List.count_eq_countP, List.countP_map]
  have whole : texts.countP ((fun x => x == text) ∘ untilNul) =
      texts.countP fun other => untilNul other == text := rfl
  rw [whole, split, Nat.add_eq_left, List.countP_eq_zero]
  simp [not_imp_not]

theorem entry_flatten_replicate {n m : Nat} {values : List (CFGValue Pri)} :
    entry (List.replicate n values).flatten = entry (List.replicate m values).flatten ↔
      n = m ∨ values = [] := by
  have injective : ∀ first second : List (CFGValue Pri), entry first = entry second → first = second := by
    intro first second same
    unfold entry at same
    split at same <;> split at same <;> simp_all
  constructor
  · intro same
    have lengths := congrArg List.length (injective _ _ same)
    rw [length_flatten_replicate, length_flatten_replicate] at lengths
    exact (mul_eq_mul_right_iff.mp lengths).imp_right List.length_eq_zero_iff.mp
  · intro cases_
    rcases cases_ with rfl | rfl
    · rfl
    · simp

section Entries

variable {get : List Str → Option (List (CFGResult Pri))} {entries : Str → List (CFGResult Pri)}
  (all : ∀ keys, get keys = some (keys.flatMap entries))
include all

theorem given_eq (text : Str) : given get text = entries text := by
  simp [given, all]

theorem answered_utf8Bytes (text : Str) :
    answered get (utf8Bytes text) = ((entries text).mapM convertResult).toOption := by
  rw [answered_entries all, convertKey, toStr_utf8Bytes]
  rfl

theorem answered_iff (text : Str) :
    answered get (utf8Bytes text) ≠ none ↔ ∀ v ∈ entries text, NulFree v := by
  rw [answered_utf8Bytes all, Option.ne_none_iff_exists']
  simp only [toOption_eq_some]
  constructor
  · intro converted
    obtain ⟨raws, converted⟩ := converted
    exact (mapM_convertResult_iff.mp ⟨raws, converted, rfl⟩).1
  · intro plain
    obtain ⟨raws, converted, -⟩ := mapM_convertResult_iff.mpr ⟨plain, rfl⟩
    exact ⟨raws, converted⟩

theorem valuesOf_utf8Bytes {text : Str} (plain : ∀ v ∈ entries text, NulFree v) :
    valuesOf get (utf8Bytes text) = (entries text).map goValue := by
  obtain ⟨raws, converted, same⟩ := mapM_convertResult_iff.mpr ⟨plain, rfl⟩
  rw [valuesOf, answered_utf8Bytes all, toOption_eq_some.mpr converted, Option.getD_some, same]

/-- A client finds under a key the entries of the key. -/
def Found (get : List Str → Option (List (CFGResult Pri))) (entries : Str → List (CFGResult Pri))
    (texts : List Str) (text : Str) : Prop :=
  entry (List.replicate ((texts.map untilNul).count text) (valuesOf get (utf8Bytes text))).flatten =
    entry (List.replicate (texts.count text) ((entries text).map goValue)).flatten

theorem found_uncut {texts : List Str} {text : Str} (plain : nul ∉ text)
    (free : ∀ v ∈ entries text, NulFree v) : Found get entries texts text ↔
      (∀ other ∈ texts, untilNul other = text → other = text) ∨ entries text = [] := by
  rw [Found, valuesOf_utf8Bytes all free, entry_flatten_replicate, count_uncut plain, List.map_eq_nil_iff]

omit all in
/-- Under a key with a NUL the client finds nothing. -/
theorem found_cut {texts : List Str} {text : Str} (cut : nul ∈ text) (member : text ∈ texts) :
    Found get entries texts text ↔ entries text = [] := by
  rw [Found, count_cut cut, List.replicate_zero, List.flatten_nil]
  have given_ : texts.count text ≠ 0 := (List.count_pos_iff.mpr member).ne'
  rw [eq_comm, entry_eq_none.mpr rfl, entry_eq_none, flatten_replicate_eq_nil, List.map_eq_nil_iff]
  exact or_iff_right given_

/-- Keys that are cut share what they are cut to with the key that it is. -/
theorem allFound_iff {texts : List Str} (free : ∀ text ∈ texts, ∀ v ∈ entries (untilNul text), NulFree v) :
    (∀ text ∈ texts, Found get entries texts text) ↔ ∀ text ∈ texts, nul ∈ text →
      entries text = [] ∧ (untilNul text ∈ texts → entries (untilNul text) = []) := by
  constructor
  · intro found text member cut
    refine ⟨(found_cut cut member).mp (found text member), fun member' => ?_⟩
    have left := (found_uncut all (nul_notMem_untilNul text) (free text member)).mp (found _ member')
    refine left.resolve_left fun alone => ?_
    have same := alone text member rfl
    exact nul_notMem_untilNul text (same ▸ cut)
  · intro none_ text member
    by_cases cut : nul ∈ text
    · exact (found_cut cut member).mpr (none_ text member cut).1
    · have plain := untilNul_eq_self cut
      refine (found_uncut all cut (plain ▸ free text member)).mpr ?_
      rw [or_iff_not_imp_left]
      intro shared
      push Not at shared
      obtain ⟨other, listed, rfl, differs⟩ := shared
      have cut' : nul ∈ other := by
        by_contra plain'
        exact differs (untilNul_eq_self plain').symm
      exact (none_ other listed cut').2 member

omit all in
theorem forall_reaches_iff (given_ : ∀ text, given get text = entries text) {texts : List Str} :
    (∀ text ∈ texts, Reaches get texts text) ↔ (∀ text ∈ texts, ∀ v ∈ entries (untilNul text), NulFree v) ∧
      ∀ text ∈ texts, nul ∈ text → entries text = [] ∧ (untilNul text ∈ texts → entries (untilNul text) = []) := by
  simp only [reaches_iff, given_, forall_and]

variable (own : ∀ key, ∀ result ∈ entries key, result.value.key = key)
include own

omit all in
/-- What a client should find under a key. -/
theorem expected_eq (texts : List Str) (text : Str) :
    (((texts.flatMap entries).map goValue).filter fun value => value.key = utf8Bytes text) =
      (List.replicate (texts.count text) ((entries text).map goValue)).flatten := by
  rw [List.map_flatMap]
  refine filter_flatMap_own utf8Bytes_injective (fun other value member => ?_) texts text
  obtain ⟨v, listed, rfl⟩ := List.mem_map.mp member
  exact congrArg utf8Bytes (own other v listed)

/-- A client finds what it should under all keys exactly if their entries reach it. -/
theorem found_iff {texts : List Str} (nonempty : texts ≠ []) :
    (∃ t, getCfgRawNoCache get (texts.map utf8Bytes) = .ok t ∧ ∀ text ∈ texts, t.lookup (utf8Bytes text) =
        entry (((texts.flatMap entries).map goValue).filter fun value => value.key = utf8Bytes text)) ↔
      ∀ text ∈ texts, Reaches get texts text := by
  have perKey : AnswersPerKey get := .inr ⟨entries, all, own⟩
  have some_ : texts.map utf8Bytes ≠ [] := by simpa using nonempty
  have answers : (∀ key ∈ texts.map utf8Bytes, answered get (cString key) ≠ none) ↔
      ∀ text ∈ texts, ∀ v ∈ entries (untilNul text), NulFree v := by
    simp only [List.forall_mem_map, cString_utf8Bytes, answered_iff all]
  have lookups : ∀ t, getCfgRawNoCache get (texts.map utf8Bytes) = .ok t → ∀ text,
      t.lookup (utf8Bytes text) =
          entry (List.replicate (texts.count text) ((entries text).map goValue)).flatten ↔
        Found get entries texts text := by
    intro t ok text
    rw [getCfgRawNoCache_lookup perKey some_ ok, ← asked, asked_utf8Bytes, Found]
  simp only [expected_eq own]
  rw [forall_reaches_iff (given_eq all)]
  constructor
  · intro found
    obtain ⟨t, ok, found⟩ := found
    have free := answers.mp ((getCfgRawNoCache_eq_ok perKey some_).mp ok).1
    refine ⟨free, (allFound_iff all free).mp fun text member => ?_⟩
    exact (lookups t ok text).mp (found text member)
  · intro both
    obtain ⟨free, none_⟩ := both
    have ok := (getCfgRawNoCache_eq_ok perKey some_).mpr ⟨answers.mpr free, rfl⟩
    refine ⟨_, ok, fun text member => ?_⟩
    exact (lookups _ ok text).mpr ((allFound_iff all free).mpr none_ text member)

theorem answersOrFails_entries {keys : List GoString} (nonempty : keys ≠ []) :
    AnswersOrFails get keys (getCfgRawNoCache get keys) ↔ AllReach get keys := by
  have returns : ∀ texts : List Str, texts.map utf8Bytes = keys → texts ≠ [] := by
    intro texts same empty
    exact nonempty (by rw [← same, empty, List.map_nil])
  cases result : getCfgRawNoCache get keys with
  | ok t =>
      constructor
      · intro found
        obtain ⟨texts, results, rfl, gives, lookups⟩ := found
        rw [all, Option.some.injEq] at gives
        subst gives
        rw [List.forall_mem_map] at lookups
        exact ⟨texts, rfl, (found_iff all own (returns texts rfl)).mp ⟨t, result, lookups⟩⟩
      · intro reach
        obtain ⟨texts, rfl, reaches⟩ := reach
        obtain ⟨t', ok, lookups⟩ := (found_iff all own (returns texts rfl)).mpr reaches
        cases result.symm.trans ok
        exact ⟨texts, _, rfl, all texts, List.forall_mem_map.mpr lookups⟩
  | error failure =>
      obtain ⟨rfl, -⟩ := getCfgRawNoCache_error (.inr ⟨entries, all, own⟩) nonempty result
      refine iff_of_false id fun reach => ?_
      obtain ⟨texts, rfl, reaches⟩ := reach
      obtain ⟨t, ok, -⟩ := (found_iff all own (returns texts rfl)).mpr reaches
      cases result.symm.trans ok

end Entries

/-! ## Loaded snapshots -/

/-- The snapshot of a namespace whose files were loaded. -/
def FilesLoaded (store : MemStorage Pri) : Prop :=
  ∃ (crates : Crates Pri) (backend : StorageBackend) (fuel : Nat) (namespaceName : Str) (version : VersionItem),
    MemStorage.new crates backend fuel namespaceName version = some (.ok store)

theorem FilesLoaded.evaluableRules {store : MemStorage Pri} (loaded : FilesLoaded store) :
    EvaluableRules store.indices := by
  obtain ⟨crates, backend, fuel, namespaceName, version, loaded⟩ := loaded
  obtain ⟨result, loads, same⟩ := Option.map_eq_some_iff.mp loaded
  cases result with
  | error failure => cases same
  | ok index =>
      cases same
      exact load_evaluableRules loads

section Snapshots

variable [LinearOrder Pri] (sort : SortUnstableBy Pri) (rules : List IdxRuleItem) (whoami : MatchContext)
  (keys : List GoString) (viewMode : ViewMode) (needExplain : Bool)

theorem answersOrFails_snapshot {store : MemStorage Pri} (loaded : FilesLoaded store)
    (order : store.indices.ruleStor.Iteration rules) (nonempty : keys ≠ []) :
    AnswersOrFails (fun texts => Querier.get sort store rules whoami texts viewMode needExplain) keys
        (Go.getCfgRawNoCache (fun texts => Querier.get sort store rules whoami texts viewMode needExplain)
          keys) ↔
      AllReach (fun texts => Querier.get sort store rules whoami texts viewMode needExplain) keys := by
  rcases get_answersPerKey sort store rules whoami viewMode needExplain with panics | ⟨entries, all, own⟩
  · obtain ⟨path, item, stored, panics⟩ := (get_eq_none order).mp (panics [])
    exact absurd panics ((loaded.evaluableRules path item stored).evaluates whoami)
  · exact answersOrFails_entries all own nonempty

/-- A query of a handle or of a differ by a client of the binding returns an error or
under each key the entries that the library's query gives exactly if all of these can
reach the client. -/
theorem answersOrFails_iff_allReach (nonempty : keys ≠ []) :
    (∀ cc : NamespaceScopedCFGCenter Pri, FilesLoaded cc.currentMemstore →
      cc.currentMemstore.indices.ruleStor.Iteration rules →
      (AnswersOrFails (fun texts => cc.getCfg sort rules whoami texts viewMode needExplain) keys
          (Namespace.getCfgRawNoCache sort rules whoami keys viewMode needExplain cc) ↔
        AllReach (fun texts => cc.getCfg sort rules whoami texts viewMode needExplain) keys)) ∧
    ∀ d : CfgCenter.Differ Pri,
      (FilesLoaded d.oldMemStore → d.oldMemStore.indices.ruleStor.Iteration rules →
        (AnswersOrFails (fun texts => d.getFromOld sort rules whoami texts viewMode needExplain) keys
            (Differ.getFromOld sort rules whoami keys viewMode needExplain d) ↔
          AllReach (fun texts => d.getFromOld sort rules whoami texts viewMode needExplain) keys)) ∧
      (FilesLoaded d.newMemStore → d.newMemStore.indices.ruleStor.Iteration rules →
        (AnswersOrFails (fun texts => d.getFromNew sort rules whoami texts viewMode needExplain) keys
            (Differ.getFromNew sort rules whoami keys viewMode needExplain d) ↔
          AllReach (fun texts => d.getFromNew sort rules whoami texts viewMode needExplain) keys)) := by
  refine ⟨fun cc loaded order => ?_, fun d => ⟨fun loaded order => ?_, fun loaded order => ?_⟩⟩
  · exact answersOrFails_snapshot sort rules whoami keys viewMode needExplain loaded order nonempty
  · exact answersOrFails_snapshot sort rules whoami keys viewMode needExplain loaded order nonempty
  · exact answersOrFails_snapshot sort rules whoami keys viewMode needExplain loaded order nonempty

end Snapshots

/-! ### A key that is UTF-8 and one that is not -/

def sampleNamespace (store : MemStorage Nat) : NamespaceScopedCFGCenter Nat := .new ['/'] store .noNotify false

def sampleDiffer (store : MemStorage Nat) : CfgCenter.Differ Nat :=
  { notifyLevel := .notifyWithoutChangedKeysByGlobal, oldMemStore := store, newMemStore := store,
    changedFiles := [] }

def sampleSort : SortUnstableBy Nat := sortPreferring [sampleLinkItem ['s'], sampleLinkItem ['t']]

/-- A property of what the three functions answer in the sample. -/
structure SampleAnswers (store : MemStorage Nat) (keys : List GoString)
    (holds : Rust GoError (GoMap (List (CFGValue Nat))) → Prop) : Prop where
  getCfgRawNoCache : holds (Namespace.getCfgRawNoCache sampleSort [ruleEntry ['r'] sampleRule] sampleContext
    keys .overlaidView false (sampleNamespace store))
  getFromOld : holds (Differ.getFromOld sampleSort [ruleEntry ['r'] sampleRule] sampleContext keys
    .overlaidView false (sampleDiffer store))
  getFromNew : holds (Differ.getFromNew sampleSort [ruleEntry ['r'] sampleRule] sampleContext keys
    .overlaidView false (sampleDiffer store))

def sampleGet (store : MemStorage Nat) (texts : List Str) : Option (List (CFGResult Nat)) :=
  Querier.get sampleSort store [ruleEntry ['r'] sampleRule] sampleContext texts .overlaidView false

theorem sample_filesLoaded {fuel : Nat} {index : CFGIndex Nat} (loads : IndexBuilder.load sampleCrates
    sampleBackend fuel (namespaceText []) sampleVersion = some (.ok index)) :
    FilesLoaded (storeOf sampleVersion index) :=
  ⟨sampleCrates, sampleBackend, fuel, namespaceText [], sampleVersion, by rw [MemStorage.new, loads]; rfl⟩

theorem sample_allReach {index : CFGIndex Nat} (loaded : Loaded sampleCrates sampleRoot [] index) :
    AllReach (sampleGet (storeOf sampleVersion index)) [[107]] := by
  refine ⟨[['k']], rfl, fun text member => ?_⟩
  obtain rfl := List.mem_singleton.mp member
  have shown : given (sampleGet (storeOf sampleVersion index)) ['k'] = [⟨none, samplePair 'v'⟩] := by
    rw [given, sampleGet, sampleSort, (sample_shows loaded sampleVersion).1]
    rfl
  constructor
  · intro v listed
    rw [untilNul_eq_self (by decide), shown] at listed
    obtain rfl := List.mem_singleton.mp listed
    decide
  · intro cut
    exact absurd cut (by decide)

theorem answersOrFails_iff_allReach_sample : ∃ index, Loaded sampleCrates sampleRoot [] index ∧
    SampleAnswers (storeOf sampleVersion index) [[107]]
      (AnswersOrFails (sampleGet (storeOf sampleVersion index)) [[107]]) := by
  obtain ⟨hash, serves⟩ := sample_serves
  obtain ⟨fuel, index, loads⟩ := sample_loads serves
  have loaded := load_loaded serves loads
  have files := sample_filesLoaded loads
  have order := sample_iteration loaded
  have reach := sample_allReach loaded
  obtain ⟨handle, differ⟩ := answersOrFails_iff_allReach sampleSort [ruleEntry ['r'] sampleRule] sampleContext
    [[107]] .overlaidView false (by decide)
  refine ⟨index, loaded, ?_, ?_, ?_⟩
  · exact (handle (sampleNamespace (storeOf sampleVersion index)) files order).mpr reach
  · exact ((differ (sampleDiffer (storeOf sampleVersion index))).1 files order).mpr reach
  · exact ((differ (sampleDiffer (storeOf sampleVersion index))).2 files order).mpr reach

/-- A key that is not UTF-8 panics instead of failing. -/
theorem getCfgRawNoCache_not_utf8 (get : List Str → Option (List (CFGResult Pri))) :
    Go.getCfgRawNoCache get [[255]] = Rust.panics := by
  have unread : CText.toStr [255] = .error .stringConvertUtf8Error := by decide
  have fails : getConfig get [[255]] = Rust.fail .stringConvertUtf8Error := by
    simp only [getConfig, convertGetCfgInputValue, List.mapM_cons, unread]
    rfl
  have cut : [[255]].map cString = [[255]] := by decide
  rw [Go.getCfgRawNoCache, if_neg (List.cons_ne_nil _ _), cut, fails]
  rfl

theorem key_not_utf8_panics : ∃ index, Loaded sampleCrates sampleRoot [] index ∧
    FilesLoaded (storeOf sampleVersion index) ∧
    (storeOf sampleVersion index).indices.ruleStor.Iteration [ruleEntry ['r'] sampleRule] ∧
    SampleAnswers (storeOf sampleVersion index) [[255]] fun answer =>
      answer = Rust.panics ∧ ¬ AnswersOrFails (sampleGet (storeOf sampleVersion index)) [[255]] answer := by
  obtain ⟨hash, serves⟩ := sample_serves
  obtain ⟨fuel, index, loads⟩ := sample_loads serves
  have panics : ∀ (get : List Str → Option (List (CFGResult Nat))) (answer : Rust GoError _),
      answer = Go.getCfgRawNoCache get [[255]] → answer = Rust.panics ∧
        ¬ AnswersOrFails (sampleGet (storeOf sampleVersion index)) [[255]] answer := by
    intro get answer same
    rw [getCfgRawNoCache_not_utf8] at same
    subst same
    exact ⟨rfl, id⟩
  have loaded := load_loaded serves loads
  exact ⟨index, loaded, sample_filesLoaded loads, sample_iteration loaded, panics _ _ rfl, panics _ _ rfl,
    panics _ _ rfl⟩

end Eafcc.Go
