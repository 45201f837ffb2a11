import Eafcc.Ffi.Memory
import Eafcc.Library.Run

namespace Eafcc.Ffi.Raw

open Eafcc.RuleEngine Eafcc.CfgCenter Memory Assertion Transition

/-! # Sessions of a caller of the exported functions -/

variable {Pri : Type}

/-- `new_whoami`, which copies what it keeps of the text. -/
def newWhoami (val : Nat) : Prog Pri Nat := do
  let text ← readText val
  alloc (.whoami (Ffi.newWhoami text))

def readWhoami (whoami : Nat) : Prog Pri MatchContext := do
  match ← read whoami with
  | .whoami context => return context
  | _ => fault

def freeWhoami (whoami : Nat) : Prog Pri Unit := do
  let _ ← readWhoami whoami
  free whoami

def readTexts : List Nat → Prog Pri (List CText)
  | [] => return []
  | key :: keys => do
      let text ← readText key
      let rest ← readTexts keys
      return text :: rest

/-- The answer for keys that were read, of a store that answers every query, such as one
whose rules were parsed. -/
def answerTexts (answers : MatchContext → List Str → List (CFGResult Pri)) (context : MatchContext)
    (texts : List CText) : Fallible Pri Nat :=
  match convertGetCfgInputValue texts with
  | .error reason => throw reason
  | .ok keys => convertGetCfgOutputValue (answers context keys)

def getConfig (answers : MatchContext → List Str → List (CFGResult Pri)) (whoami : Nat) (keys : List Nat) :
    Fallible Pri Nat := do
  let context ← ExceptT.lift (readWhoami whoami)
  let texts ← ExceptT.lift (readTexts keys)
  answerTexts answers context texts

/-- The results that the call gives the caller, and the error for which it gives none. -/
def converted (answers : MatchContext → List Str → List (CFGResult Pri)) (context : MatchContext)
    (keys : List CText) : Except FFIError (List (Ffi.ConfigValue Pri)) :=
  convertGetCfgInputValue keys >>= fun keys => Ffi.convertGetCfgOutputValue (answers context keys)

/-- The blocks that the call leaves behind if it gives none. -/
def lostInCall (answers : MatchContext → List Str → List (CFGResult Pri)) (context : MatchContext)
    (keys : List CText) : Nat :=
  match convertGetCfgInputValue keys with
  | .ok keys => lostIn (answers context keys)
  | .error _ => 0

theorem converted_eq (answers : MatchContext → List Str → List (CFGResult Pri)) (context : MatchContext)
    (keys : List CText) :
    Ffi.getConfig (fun keys => some (answers context keys)) keys = lift (converted answers context keys) := by
  rw [Ffi.getConfig, converted]
  cases convertGetCfgInputValue keys <;> rfl

/-! ## What the caller owns -/

def Whoami (address : Nat) (context : MatchContext) : Owns Pri := pointsTo address (.whoami context)

/-- Something that the caller was given and has not given back. -/
inductive Object (Pri : Type) where
  | text (address : Nat) (text : CText)
  | whoami (address : Nat) (context : MatchContext)
  | results (address : Nat) (values : List (Ffi.ConfigValue Pri))

def Object.owns : Object Pri → Owns Pri
  | .text address bytes => Text address bytes
  | .whoami address context => Whoami address context
  | .results address values => Results address values

/-- As many blocks as it consists of. -/
def Object.blocks : Object Pri → Nat
  | .text _ _ => 1
  | .whoami _ _ => 1
  | .results _ values =>
      1 + (if values.length = 0 then 0 else 1) +
        (values.map fun value => 3 + reasonSize value.reason).sum

/-- The memory of a caller, with what it owns and the number of blocks that nobody does. -/
structure Session (Pri : Type) where
  heap : Heap (Cell Pri)
  objects : List (Object Pri)
  lost : Nat

def Session.start : Session Pri := { heap := .empty, objects := [], lost := 0 }

/-- What a caller does. It makes the C strings that it passes itself. -/
inductive Call (Pri : Type) where
  | newText (text : CText)
  | freeText (address : Nat)
  | newWhoami (val : Nat)
  | freeWhoami (address : Nat)
  | getConfig (answers : MatchContext → List Str → List (CFGResult Pri)) (whoami : Nat)
      (keys : List (Nat × CText))
  | freeConfigValues (address : Nat)

/-- The caller passes pointers that it owns, and gives up what it frees. -/
inductive Calls : Session Pri → Call Pri → Session Pri → Prop
  | newText {s : Session Pri} {text : CText} {address : Nat} {heap : Heap (Cell Pri)} :
      alloc (.cString text) s.heap = some (address, heap) →
      Calls s (.newText text) { s with heap, objects := .text address text :: s.objects }
  | freeText {s : Session Pri} {address : Nat} {text : CText} {before after : List (Object Pri)}
      {heap : Heap (Cell Pri)} :
      s.objects = before ++ .text address text :: after → fromRaw address s.heap = some ((), heap) →
      Calls s (.freeText address) { s with heap, objects := before ++ after }
  | newWhoami {s : Session Pri} {val address : Nat} {text : CText} {heap : Heap (Cell Pri)} :
      .text val text ∈ s.objects → newWhoami val s.heap = some (address, heap) →
      Calls s (.newWhoami val)
        { s with heap, objects := .whoami address (Ffi.newWhoami text) :: s.objects }
  | freeWhoami {s : Session Pri} {address : Nat} {context : MatchContext}
      {before after : List (Object Pri)} {heap : Heap (Cell Pri)} :
      s.objects = before ++ .whoami address context :: after →
      freeWhoami address s.heap = some ((), heap) →
      Calls s (.freeWhoami address) { s with heap, objects := before ++ after }
  | getConfig {s : Session Pri} {answers : MatchContext → List Str → List (CFGResult Pri)} {whoami address : Nat}
      {context : MatchContext} {keys : List (Nat × CText)} {values : List (Ffi.ConfigValue Pri)}
      {heap : Heap (Cell Pri)} :
      .whoami whoami context ∈ s.objects → (∀ key ∈ keys, .text key.1 key.2 ∈ s.objects) →
      (getConfig answers whoami (keys.map Prod.fst)).run s.heap = some (.ok address, heap) →
      converted answers context (keys.map Prod.snd) = .ok values →
      Calls s (.getConfig answers whoami keys)
        { s with heap, objects := .results address values :: s.objects }
  | getConfigFails {s : Session Pri} {answers : MatchContext → List Str → List (CFGResult Pri)} {whoami : Nat}
      {context : MatchContext} {keys : List (Nat × CText)} {reason : FFIError}
      {heap : Heap (Cell Pri)} :
      .whoami whoami context ∈ s.objects → (∀ key ∈ keys, .text key.1 key.2 ∈ s.objects) →
      (getConfig answers whoami (keys.map Prod.fst)).run s.heap = some (.error reason, heap) →
      converted answers context (keys.map Prod.snd) = .error reason →
      Calls s (.getConfig answers whoami keys)
        { s with heap, lost := s.lost + lostInCall answers context (keys.map Prod.snd) }
  | freeConfigValues {s : Session Pri} {address : Nat} {values : List (Ffi.ConfigValue Pri)}
      {before after : List (Object Pri)} {heap : Heap (Cell Pri)} :
      s.objects = before ++ .results address values :: after →
      freeConfigValues address s.heap = some ((), heap) →
      Calls s (.freeConfigValues address) { s with heap, objects := before ++ after }

/-- The pointers that a call takes are ones that the caller owns. -/
def Call.Permitted (objects : List (Object Pri)) : Call Pri → Prop
  | .newText _ => True
  | .freeText address => ∃ text, .text address text ∈ objects
  | .newWhoami val => ∃ text, .text val text ∈ objects
  | .freeWhoami address => ∃ context, .whoami address context ∈ objects
  | .getConfig _ whoami keys =>
      (∃ context, .whoami whoami context ∈ objects) ∧ ∀ key ∈ keys, .text key.1 key.2 ∈ objects
  | .freeConfigValues address => ∃ values, .results address values ∈ objects

/-! ## The calls -/

section Calls

variable {heap : Heap (Cell Pri)} {address : Nat} {context : MatchContext}

theorem readWhoami_eq (has : heap.Has (Whoami address context)) :
    readWhoami address heap = some (context, heap) :=
  bind_runs has.read

theorem newWhoami_eq {text : CText} (has : heap.Has (Text address text)) :
    newWhoami address heap = alloc (.whoami (Ffi.newWhoami text)) heap :=
  bind_runs (readText_eq has)

theorem freeWhoami_spec : Triple (Whoami address context : Owns Pri) (freeWhoami address) fun _ => 1 := by
  have found : Triple (Whoami address context : Owns Pri) (readWhoami address) fun found =>
      fact (found = context) * Whoami address context := by
    refine Triple.read.bind fun cell => .ofFact fun same => ?_
    rw [same]
    exact .ofPure fun blocks holds => fact_mul_apply.mpr ⟨rfl, holds⟩
  exact found.bind fun _ => .ofFact fun _ => .free

theorem readTexts_eq (keys : List (Nat × CText)) (has : ∀ key ∈ keys, heap.Has (Text key.1 key.2)) :
    readTexts (keys.map Prod.fst) heap = some (keys.map Prod.snd, heap) := by
  induction keys with
  | nil => rfl
  | cons key keys ih =>
      rw [List.forall_mem_cons] at has
      rw [List.map_cons, readTexts, bind_runs (readText_eq has.1), bind_runs (ih has.2)]
      rfl

theorem getConfig_reads (answers : MatchContext → List Str → List (CFGResult Pri)) {keys : List (Nat × CText)}
    (whoami : heap.Has (Whoami address context)) (texts : ∀ key ∈ keys, heap.Has (Text key.1 key.2)) :
    (getConfig answers address (keys.map Prod.fst)).run heap =
      (answerTexts answers context (keys.map Prod.snd)).run heap := by
  rw [getConfig, ExceptT.run_bind_lift, bind_runs (readWhoami_eq whoami), ExceptT.run_bind_lift,
    bind_runs (readTexts_eq keys texts)]

theorem answerTexts_spec (answers : MatchContext → List Str → List (CFGResult Pri)) (context : MatchContext)
    (texts : List CText) : Triple 1 (answerTexts answers context texts).run
      (Outcome (converted answers context texts) Results (lostInCall answers context texts)) := by
  rw [answerTexts, converted, lostInCall]
  cases convertGetCfgInputValue texts with
  | error reason => exact .ofPure fun blocks nothing => fact_mul_apply.mpr ⟨rfl, one_size blocks nothing⟩
  | ok keys => exact convertGetCfgOutputValue_spec (answers context keys)

/-- A query of what the caller owns makes the results next to it. -/
theorem getConfig_made (answers : MatchContext → List Str → List (CFGResult Pri)) {keys : List (Nat × CText)}
    {R : Owns Pri} (whoami : heap.Has (Whoami address context))
    (texts : ∀ key ∈ keys, heap.Has (Text key.1 key.2)) (holds : R heap.blocks) :
    ∃ result heap', (getConfig answers address (keys.map Prod.fst)).run heap = some (result, heap') ∧
      (Outcome (converted answers context (keys.map Prod.snd)) Results
        (lostInCall answers context (keys.map Prod.snd)) result * R) heap'.blocks := by
  have start : (1 * R : Owns Pri) heap.blocks := by rwa [one_mul]
  obtain ⟨result, heap', ran, left, -⟩ := (answerTexts_spec answers context (keys.map Prod.snd)).run start
  exact ⟨result, heap', (getConfig_reads answers whoami texts).trans ran, left⟩

end Calls

/-! ## Sessions -/

def ownedBy (objects : List (Object Pri)) (lost : Nat) : Owns Pri :=
  (objects.map Object.owns).prod * size lost

/-- The blocks are those of the objects that the caller owns, and those that were lost. -/
def Session.Sound (s : Session Pri) : Prop := ownedBy s.objects s.lost s.heap.blocks

theorem Session.start_sound : (Session.start : Session Pri).Sound := by
  change ownedBy [] 0 ∅
  rw [ownedBy, List.map_nil, List.prod_nil, one_mul]
  rfl

theorem ownedBy_cons {object : Object Pri} {objects : List (Object Pri)} {lost : Nat} :
    ownedBy (object :: objects) lost = object.owns * ownedBy objects lost := by
  rw [ownedBy, List.map_cons, List.prod_cons, mul_assoc, ownedBy]

theorem ownedBy_append {before after : List (Object Pri)} {object : Object Pri} {lost : Nat} :
    ownedBy (before ++ object :: after) lost = object.owns * ownedBy (before ++ after) lost := by
  simp [ownedBy, mul_assoc, mul_left_comm]

section Sessions

variable {s s' : Session Pri} {object : Object Pri} {before after : List (Object Pri)}

/-- What is owned is there next to the rest. -/
theorem Session.Sound.split (sound : s.Sound) (whole : s.objects = before ++ object :: after) :
    (object.owns * ownedBy (before ++ after) s.lost : Owns Pri) s.heap.blocks := by
  rw [Session.Sound, whole, ownedBy_append] at sound
  exact sound

theorem Session.Sound.has (sound : s.Sound) (owned : object ∈ s.objects) : s.heap.Has object.owns := by
  obtain ⟨before, after, whole⟩ := List.append_of_mem owned
  exact ⟨_, sound.split whole⟩

/-- An object that is freed takes its blocks along. -/
theorem Session.Sound.frees (sound : s.Sound) (whole : s.objects = before ++ object :: after)
    {program : Prog Pri Unit} (frees : Triple object.owns program fun _ => 1) :
    ∃ heap, program s.heap = some ((), heap) ∧
      ({ s with heap, objects := before ++ after } : Session Pri).Sound := by
  obtain ⟨_, heap, ran, left, -⟩ := frees.run (sound.split whole)
  rw [one_mul] at left
  exact ⟨heap, ran, left⟩

/-- An object that is made adds its blocks. -/
theorem Session.Sound.makes (sound : s.Sound) {program : Prog Pri Nat} (owned : Nat → Object Pri)
    (makes : Triple 1 program fun address => (owned address).owns) :
    ∃ address heap, program s.heap = some (address, heap) ∧
      ({ s with heap, objects := owned address :: s.objects } : Session Pri).Sound := by
  have start : (1 * ownedBy s.objects s.lost : Owns Pri) s.heap.blocks := by
    rw [one_mul]
    exact sound
  obtain ⟨address, heap, ran, left, -⟩ := makes.run start
  refine ⟨address, heap, ran, ?_⟩
  rw [Session.Sound, ownedBy_cons]
  exact left

theorem Session.Sound.query (sound : s.Sound) (answers : MatchContext → List Str → List (CFGResult Pri))
    {whoami : Nat} {context : MatchContext} {keys : List (Nat × CText)}
    (owned : .whoami whoami context ∈ s.objects) (texts : ∀ key ∈ keys, .text key.1 key.2 ∈ s.objects) :
    ∃ result heap, (getConfig answers whoami (keys.map Prod.fst)).run s.heap = some (result, heap) ∧
      match result with
      | .ok address => ∃ values, converted answers context (keys.map Prod.snd) = .ok values ∧
          ({ s with heap, objects := .results address values :: s.objects } : Session Pri).Sound
      | .error reason => converted answers context (keys.map Prod.snd) = .error reason ∧
          ({ s with heap, lost := s.lost + lostInCall answers context (keys.map Prod.snd) } :
            Session Pri).Sound := by
  obtain ⟨result, heap, ran, left⟩ := getConfig_made answers (sound.has owned)
    (fun key member => sound.has (texts key member)) sound
  refine ⟨result, heap, ran, ?_⟩
  cases result with
  | ok address =>
      rw [Outcome, ex_mul] at left
      obtain ⟨values, left⟩ := left
      rw [mul_assoc] at left
      obtain ⟨made, left⟩ := fact_mul_apply.mp left
      refine ⟨values, made, ?_⟩
      rw [Session.Sound, ownedBy_cons]
      exact left
  | error reason =>
      rw [Outcome, mul_assoc] at left
      obtain ⟨fails, left⟩ := fact_mul_apply.mp left
      rw [ownedBy, mul_left_comm, mul_comm (size _)] at left
      exact ⟨fails, (Entails.refl _).mul size_mul _ left⟩

/-- A step of a caller keeps its ledger right. -/
theorem Calls.sound {call : Call Pri} (step : Calls s call s') (sound : s.Sound) : s'.Sound := by
  cases step with
  | newText made =>
      obtain ⟨address, heap, ran, sound'⟩ := sound.makes (fun address => .text address _) (.alloc _)
      rw [ran] at made
      cases made
      exact sound'
  | freeText whole freed =>
      obtain ⟨heap, ran, sound'⟩ := sound.frees whole fromRaw_spec
      rw [ran] at freed
      cases freed
      exact sound'
  | newWhoami owned made =>
      rw [newWhoami_eq (sound.has owned)] at made
      obtain ⟨address, heap, ran, sound'⟩ := sound.makes (fun address => .whoami address _) (.alloc _)
      rw [ran] at made
      cases made
      exact sound'
  | freeWhoami whole freed =>
      obtain ⟨heap, ran, sound'⟩ := sound.frees whole freeWhoami_spec
      rw [ran] at freed
      cases freed
      exact sound'
  | getConfig owned texts called made =>
      obtain ⟨result, heap, ran, sound'⟩ := sound.query _ owned texts
      rw [called] at ran
      cases ran
      obtain ⟨values, same, sound'⟩ := sound'
      rw [made] at same
      cases same
      exact sound'
  | getConfigFails owned texts called =>
      obtain ⟨result, heap, ran, sound'⟩ := sound.query _ owned texts
      rw [called] at ran
      cases ran
      exact sound'.2
  | freeConfigValues whole freed =>
      obtain ⟨heap, ran, sound'⟩ := sound.frees whole freeConfigValues_spec
      rw [ran] at freed
      cases freed
      exact sound'

/-- A call that is passed what the caller owns uses no block that is not there. -/
theorem Session.Sound.returns {call : Call Pri} (sound : s.Sound) (permitted : call.Permitted s.objects) :
    ∃ s', Calls s call s' := by
  cases call with
  | newText text =>
      obtain ⟨address, heap, ran, -⟩ := sound.makes (fun address => .text address text) (.alloc _)
      exact ⟨_, .newText ran⟩
  | freeText address =>
      obtain ⟨text, owned⟩ := permitted
      obtain ⟨before, after, whole⟩ := List.append_of_mem owned
      obtain ⟨heap, ran, -⟩ := sound.frees whole fromRaw_spec
      exact ⟨_, .freeText whole ran⟩
  | newWhoami val =>
      obtain ⟨text, owned⟩ := permitted
      obtain ⟨address, heap, ran, -⟩ := sound.makes
        (fun address => .whoami address (Ffi.newWhoami text)) (.alloc _)
      exact ⟨_, .newWhoami owned ((newWhoami_eq (sound.has owned)).trans ran)⟩
  | freeWhoami address =>
      obtain ⟨context, owned⟩ := permitted
      obtain ⟨before, after, whole⟩ := List.append_of_mem owned
      obtain ⟨heap, ran, -⟩ := sound.frees whole freeWhoami_spec
      exact ⟨_, .freeWhoami whole ran⟩
  | getConfig answers whoami keys =>
      obtain ⟨⟨context, owned⟩, texts⟩ := permitted
      obtain ⟨result, heap, ran, sound'⟩ := sound.query answers owned texts
      cases result with
      | ok address =>
          obtain ⟨values, made, -⟩ := sound'
          exact ⟨_, .getConfig owned texts ran made⟩
      | error reason => exact ⟨_, .getConfigFails owned texts ran sound'.1⟩
  | freeConfigValues address =>
      obtain ⟨values, owned⟩ := permitted
      obtain ⟨before, after, whole⟩ := List.append_of_mem owned
      obtain ⟨heap, ran, -⟩ := sound.frees whole freeConfigValues_spec
      exact ⟨_, .freeConfigValues whole ran⟩

/-! ## As many blocks as there are -/

theorem item_size (raw : ConfigValue) (v : Ffi.ConfigValue Pri) :
    Entails (Item raw v) (size (3 + reasonSize v.reason)) := by
  have sized := text_size raw.key v.key
    (text_size raw.contentType v.contentType (text_size raw.value v.value (optReason_size raw.reason v.reason)))
  have count : reasonSize v.reason + 1 + 1 + 1 = 3 + reasonSize v.reason := by omega
  rw [count] at sized
  exact sized

theorem items_size (items : List (ConfigValue × Ffi.ConfigValue Pri)) : Entails (Items items)
    (size ((items.map Prod.snd).map fun value => 3 + reasonSize value.reason).sum) := by
  induction items with
  | nil => exact one_size
  | cons item items ih => exact ((item_size item.1 item.2).mul ih).trans size_mul

theorem owns_size (object : Object Pri) : Entails object.owns (size object.blocks) := by
  cases object with
  | text address bytes => exact pointsTo_size _ _
  | whoami address context => exact pointsTo_size _ _
  | results address values =>
      intro blocks holds
      obtain ⟨items, ptr, holds⟩ := holds
      obtain ⟨⟨same, empty⟩, left⟩ := fact_mul_apply.mp holds
      subst same
      have buffer : Entails (Buffer items.length (items.map Prod.fst) ptr : Owns Pri)
          (size (if (items.map Prod.snd).length = 0 then 0 else 1)) := by
        cases ptr with
        | none =>
            obtain rfl := empty.mp rfl
            exact fun blocks nothing => one_size blocks nothing.2
        | some address =>
            have some_ : items ≠ [] := fun none_ => Option.some_ne_none _ (empty.mpr none_)
            rw [if_neg (by simpa using some_)]
            exact pointsTo_size _ _
      have sized := ((pointsTo_size address (.configValues { len := items.length, ptr })).mul
        ((buffer.mul (items_size items)).trans size_mul)).trans size_mul
      rw [Object.blocks, Nat.add_assoc]
      exact sized blocks left

theorem ownedBy_size (objects : List (Object Pri)) (lost : Nat) :
    Entails (ownedBy objects lost) (size ((objects.map Object.blocks).sum + lost)) := by
  induction objects with
  | nil =>
      rw [ownedBy, List.map_nil, List.prod_nil, one_mul, List.map_nil, List.sum_nil, Nat.zero_add]
      exact .refl _
  | cons object objects ih =>
      rw [ownedBy_cons, List.map_cons, List.sum_cons, Nat.add_assoc]
      exact ((owns_size object).mul ih).trans size_mul

/-- Whatever a caller does with what it owns, no call uses a block that is not there, the
results that it has not freed read as they were converted, and there are as many blocks as
it owns and failing queries left behind together. -/
theorem session_sound (calls : List (Taken (Session Pri) (Call Pri))) (s : Session Pri)
    (run : Run Calls .start calls s) :
    (∀ call, call.Permitted s.objects → ∃ s', Calls s call s') ∧
    (∀ address values, .results address values ∈ s.objects →
      readConfigValues address s.heap = some (values, s.heap)) ∧
    s.heap.blocks.keys.card = (s.objects.map Object.blocks).sum + s.lost := by
  have sound := run.invariant Session.start_sound fun _ _ _ sound step => step.sound sound
  exact ⟨fun call permitted => sound.returns permitted,
    fun address values owned => readConfigValues_eq (sound.has owned), ownedBy_size _ _ _ sound⟩

end Sessions

/-- Answers every key with its own name. -/
def echo (_ : MatchContext) (keys : List Str) : List (CFGResult Nat) :=
  keys.map fun key => { reason := none, value := { key, contentType := ['t'], value := key } }

def sampleValue (key : Str) : Ffi.ConfigValue Nat :=
  { key := utf8Bytes key, contentType := utf8Bytes ['t'], value := utf8Bytes key, reason := none }

theorem sampleKey_read : convertGetCfgInputValue [utf8Bytes ['k']] = .ok [['k']] := by
  rw [convertGetCfgInputValue, List.mapM_cons, toStr_utf8Bytes, List.mapM_nil]
  rfl

theorem converted_key (answers : MatchContext → List Str → List (CFGResult Nat)) (context : MatchContext) :
    converted answers context [utf8Bytes ['k']] = (answers context [['k']]).mapM Ffi.convertResult := by
  rw [converted, sampleKey_read]
  rfl

theorem echo_converted (context : MatchContext) :
    converted echo context [utf8Bytes ['k']] = .ok [sampleValue ['k']] := by
  have said : ¬ ∃ answer ∈ echo context [['k']], Unsayable answer := by simp [echo, Unsayable, nul]
  rw [converted_key]
  rcases Converts.mapM convertResult_converts (echo context [['k']]) with ⟨bad, -⟩ | ⟨-, made⟩
  · exact absurd bad said
  · exact made

/-- Answers every key with a value that no C string holds. -/
def spoiled (_ : MatchContext) (keys : List Str) : List (CFGResult Nat) :=
  keys.map fun key => { reason := none, value := { key, contentType := ['t'], value := [nul] } }

theorem spoiled_unsayable (context : MatchContext) : ∀ answer ∈ spoiled context [['k']], Unsayable answer := by
  simp [spoiled, Unsayable]

theorem spoiled_fails (context : MatchContext) :
    converted spoiled context [utf8Bytes ['k']] = .error .stringConvertNulError := by
  rw [converted_key]
  rcases Converts.mapM convertResult_converts (spoiled context [['k']]) with ⟨-, failed⟩ | ⟨good, -⟩
  · exact failed
  · exact absurd ⟨_, List.mem_cons_self, spoiled_unsayable context _ List.mem_cons_self⟩ good

/-- The strings of the content type and of the key are left behind. -/
theorem spoiled_lost (context : MatchContext) : lostInCall spoiled context [utf8Bytes ['k']] = 2 := by
  have fails : ∀ answer ∈ spoiled context [['k']], Ffi.convertResult answer = .error .stringConvertNulError := by
    intro answer member
    rcases convertResult_converts answer with ⟨-, failed⟩ | ⟨good, -⟩
    · exact failed
    · exact absurd (spoiled_unsayable context answer member) good
  rw [lostInCall, sampleKey_read]
  change lostIn (_ :: _) = 2
  rw [lostIn, fails _ List.mem_cons_self]
  simp [lostBy, reasonTexts, valueTexts, textsBefore, nul, reasonSize]

/-- A text, the tags that it gives and the results for the key of that name.  Then a query
fails, and the text is freed. -/
theorem sample_session : ∃ calls address whoami, ∃ s : Session Nat, Run Calls .start calls s ∧
    s.objects = [.results address [sampleValue ['k']], .whoami whoami (Ffi.newWhoami (utf8Bytes ['k']))] ∧
    s.lost = 2 := by
  obtain ⟨key, _, made, -⟩ := Session.start_sound.makes (fun address => .text address (utf8Bytes ['k']))
    (.alloc _)
  have texted : Calls (.start : Session Nat) (.newText (utf8Bytes ['k'])) _ := .newText made
  have soundText := texted.sound Session.start_sound
  have owned : .text key (utf8Bytes ['k']) ∈ [(.text key (utf8Bytes ['k']) : Object Nat)] := List.mem_cons_self
  obtain ⟨whoami, _, made, -⟩ := soundText.makes
    (fun address => .whoami address (Ffi.newWhoami (utf8Bytes ['k']))) (.alloc _)
  have tagged : Calls (_ : Session Nat) (.newWhoami key) _ :=
    .newWhoami owned ((newWhoami_eq (soundText.has owned)).trans made)
  have soundTags := tagged.sound soundText
  have keyed : ∀ asked ∈ [(key, utf8Bytes ['k'])], .text asked.1 asked.2 ∈
      [.whoami whoami (Ffi.newWhoami (utf8Bytes ['k'])), (.text key (utf8Bytes ['k']) : Object Nat)] := by
    simp
  obtain ⟨result, _, ran, left⟩ := soundTags.query echo List.mem_cons_self keyed
  cases result with
  | error reason => cases left.1.symm.trans (echo_converted _)
  | ok address =>
    obtain ⟨values, same, -⟩ := left
    obtain rfl := Except.ok.inj (same.symm.trans (echo_converted _))
    have queried : Calls (_ : Session Nat) (.getConfig echo whoami [(key, utf8Bytes ['k'])]) _ :=
      .getConfig List.mem_cons_self keyed ran same
    have soundResults := queried.sound soundTags
    have tags : .whoami whoami (Ffi.newWhoami (utf8Bytes ['k'])) ∈
        [.results address [sampleValue ['k']], .whoami whoami (Ffi.newWhoami (utf8Bytes ['k'])),
          (.text key (utf8Bytes ['k']) : Object Nat)] := List.mem_cons_of_mem _ List.mem_cons_self
    have keyed' := fun asked member =>
      List.mem_cons_of_mem (.results address [sampleValue ['k']]) (keyed asked member)
    have refused := spoiled_fails (Ffi.newWhoami (utf8Bytes ['k']))
    obtain ⟨result, _, ran, left⟩ := soundResults.query spoiled tags keyed'
    cases result with
    | ok other =>
      obtain ⟨values, same, -⟩ := left
      cases refused.symm.trans same
    | error reason =>
      have failed : Calls (_ : Session Nat) (.getConfig spoiled whoami [(key, utf8Bytes ['k'])]) _ :=
        .getConfigFails tags keyed' ran left.1
      have soundLost := failed.sound soundResults
      have whole : [.results address [sampleValue ['k']], .whoami whoami (Ffi.newWhoami (utf8Bytes ['k'])),
          .text key (utf8Bytes ['k'])] =
        [.results address [sampleValue ['k']], .whoami whoami (Ffi.newWhoami (utf8Bytes ['k']))] ++
          (.text key (utf8Bytes ['k']) : Object Nat) :: [] := rfl
      obtain ⟨_, dropped, -⟩ := soundLost.frees whole fromRaw_spec
      have freed : Calls (_ : Session Nat) (.freeText key) _ := .freeText whole dropped
      have lost : 0 + lostInCall spoiled (Ffi.newWhoami (utf8Bytes ['k'])) [utf8Bytes ['k']] = 2 := by
        rw [Nat.zero_add, spoiled_lost]
      exact ⟨_, address, whoami, _, ((((Run.nil.snoc texted).snoc tagged).snoc queried).snoc failed).snoc freed,
        rfl, lost⟩

theorem session_sound_sample : ∃ calls address whoami, ∃ s : Session Nat, Run Calls .start calls s ∧
    s.objects = [.results address [sampleValue ['k']], .whoami whoami (Ffi.newWhoami (utf8Bytes ['k']))] ∧
    s.lost = 2 ∧
    (∀ call, call.Permitted s.objects → ∃ s', Calls s call s') ∧
    readConfigValues address s.heap = some ([sampleValue ['k']], s.heap) ∧
    s.heap.blocks.keys.card = 8 := by
  obtain ⟨calls, address, whoami, s, run, owned, lost⟩ := sample_session
  obtain ⟨goes, read, count⟩ := session_sound calls s run
  have member : .results address [sampleValue ['k']] ∈ s.objects := owned ▸ List.mem_cons_self
  rw [owned, lost] at count
  exact ⟨calls, address, whoami, s, run, owned, lost, goes, read _ _ member, count⟩

end Eafcc.Ffi.Raw
