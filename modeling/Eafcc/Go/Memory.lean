import Eafcc.Ffi.Session
import Eafcc.Go.Query

namespace Eafcc.Go.Raw

open Eafcc.RuleEngine Eafcc.CfgCenter Eafcc.Ffi Eafcc.Ffi.Raw Memory Assertion Transition

/-! # What the Go binding allocates and frees

The binding makes C strings and the library's form of the tags, passes them on, and frees
what it got.  The garbage collector frees none of it.
-/

variable {Pri : Type}

/-- The library's form of the tags is made by the first query. -/
structure WhoAmI where
  ctx : Option Nat
  raw : GoString

abbrev Answer (Pri : Type) := Rust GoError (GoMap (List (CFGValue Pri)))

abbrev Answers (Pri : Type) := MatchContext → List Str → List (CFGResult Pri)

/-- `C.CString`. The bytes after the first NUL are there, but nobody reads them. -/
def newCString (text : GoString) : Prog Pri Nat := alloc (.cString (cString text))

def newCStrings : List GoString → Prog Pri (List Nat)
  | [] => return []
  | key :: keys => do
      let ckey ← newCString key
      let ckeys ← newCStrings keys
      return ckey :: ckeys

def freeCStrings : List Nat → Prog Pri Unit
  | [] => return ()
  | ckey :: ckeys => do
      free ckey
      freeCStrings ckeys

/-- The context of the tags, which is made if there is none. The library gives one for
every text. -/
def createContext (whoami : WhoAmI) : Prog Pri Nat :=
  match whoami.ctx with
  | some ctx => return ctx
  | none => do
      let cctx ← newCString whoami.raw
      let handler ← Ffi.Raw.newWhoami cctx
      free cctx
      return handler

/-- The C strings of the keys, and the tags with their context. -/
def convertGetCFGInput (whoami : WhoAmI) (keys : List GoString) :
    ExceptT GoError (Prog Pri) (List Nat × Nat) :=
  if keys = [] then throw .noInputKeys
  else do
    let ckeys ← ExceptT.lift (newCStrings keys)
    let ctx ← ExceptT.lift (createContext whoami)
    return (ckeys, ctx)

/-- The results are read and freed. A null pointer is dereferenced, which panics. -/
def convertGetCFGOutput : Option Nat → Prog Pri (Answer Pri)
  | some cValues => do
      let values ← readConfigValues cValues
      freeConfigValues cValues
      return .ok (Go.convertGetCFGOutput values)
  | none => return Rust.panics

/-- The call of the library, of one of its three functions. -/
def query (answers : Answers Pri) (ctx : Nat) (ckeys : List Nat) : Prog Pri (Answer Pri) := do
  let t ← (getConfig answers ctx ckeys).run
  freeCStrings ckeys
  convertGetCFGOutput t.toOption

/-- The body of the three queries: the tags as the call leaves them, and what it returns. -/
def getFrom (answers : Answers Pri) (whoami : WhoAmI) (keys : List GoString) :
    Prog Pri (WhoAmI × Answer Pri) := do
  match ← (convertGetCFGInput whoami keys).run with
  | .error reason => return (whoami, Rust.fail reason)
  | .ok (ckeys, ctx) => do
      let answer ← query answers ctx ckeys
      return ({ whoami with ctx := some ctx }, answer)

/-- A handle, as `get_config` answers for it. -/
structure Namespace (Pri : Type) where
  getConfig : ViewMode → Bool → Answers Pri

/-- A differ, as `differ_get_from_old` and `differ_get_from_new` answer for it. -/
structure Differ (Pri : Type) where
  differGetFromOld : ViewMode → Bool → Answers Pri
  differGetFromNew : ViewMode → Bool → Answers Pri

def Namespace.getCfgRawNoCache (c : Namespace Pri) (whoami : WhoAmI) (keys : List GoString)
    (viewMode : ViewMode) (needExplain : Bool) : Prog Pri (WhoAmI × Answer Pri) :=
  getFrom (c.getConfig viewMode needExplain) whoami keys

def Differ.getFromOld (d : Differ Pri) (whoami : WhoAmI) (keys : List GoString) (viewMode : ViewMode)
    (needExplain : Bool) : Prog Pri (WhoAmI × Answer Pri) :=
  getFrom (d.differGetFromOld viewMode needExplain) whoami keys

def Differ.getFromNew (d : Differ Pri) (whoami : WhoAmI) (keys : List GoString) (viewMode : ViewMode)
    (needExplain : Bool) : Prog Pri (WhoAmI × Answer Pri) :=
  getFrom (d.differGetFromNew viewMode needExplain) whoami keys

/-- The pointer stays as it is. -/
def WhoAmI.free (c : WhoAmI) : Prog Pri Unit :=
  match c.ctx with
  | some ctx => freeWhoami ctx
  | none => return ()

/-! ## What a call does with what it owns -/

def contextOf (raw : GoString) : MatchContext := Ffi.newWhoami (cString raw)

/-- Tags of which the context was not freed. -/
def WhoAmI.owns (whoami : WhoAmI) : Owns Pri :=
  match whoami.ctx with
  | some ctx => Whoami ctx (contextOf whoami.raw)
  | none => 1

def Strings (texts : List (Nat × CText)) : Owns Pri := (texts.map fun text => Text text.1 text.2).prod

section Calls

variable {whoami : WhoAmI} {heap : Heap (Cell Pri)}

theorem strings_has {texts : List (Nat × CText)} (has : heap.Has (Strings texts)) :
    ∀ text ∈ texts, heap.Has (Text text.1 text.2) := by
  induction texts with
  | nil => exact fun _ member => absurd member List.not_mem_nil
  | cons text texts ih =>
      have whole : heap.Has (Text text.1 text.2 * Strings texts) := has
      rw [List.forall_mem_cons]
      exact ⟨whole.left, ih whole.right⟩

theorem newCStrings_spec (keys : List GoString) : Triple (1 : Owns Pri) (newCStrings keys) fun ckeys =>
    ex fun texts : List (Nat × CText) =>
      fact (texts.map Prod.fst = ckeys ∧ texts.map Prod.snd = keys.map cString) * Strings texts := by
  induction keys with
  | nil => exact .ofPure fun blocks nothing => ⟨[], fact_mul_apply.mpr ⟨⟨rfl, rfl⟩, nothing⟩⟩
  | cons key keys ih =>
      refine .allocThen fun ckey => ?_
      rw [mul_one]
      refine ih.beside.bind fun ckeys => ?_
      rw [ex_mul]
      refine .ofEx fun texts => ?_
      rw [mul_assoc]
      refine .ofFact fun same => .ofPure fun blocks holds => ?_
      refine ⟨(ckey, cString key) :: texts, fact_mul_apply.mpr ⟨?_, ?_⟩⟩
      · exact ⟨by rw [List.map_cons, same.1], by rw [List.map_cons, List.map_cons, same.2]⟩
      · rw [mul_comm] at holds
        exact holds

theorem freeCStrings_spec (texts : List (Nat × CText)) :
    Triple (Strings texts : Owns Pri) (freeCStrings (texts.map Prod.fst)) fun _ => 1 := by
  induction texts with
  | nil => exact Triple.pure (Q := fun _ => 1) ()
  | cons text texts ih => exact Triple.dropThen .free ih

theorem newWhoami_spec {val : Nat} {text : CText} : Triple (Text val text : Owns Pri)
    (Ffi.Raw.newWhoami val) fun address => Whoami address (Ffi.newWhoami text) * Text val text :=
  .ofReads (fun _ has => newWhoami_eq has) (.alloc _)

theorem createContext_spec (whoami : WhoAmI) : Triple (whoami.owns : Owns Pri) (createContext whoami)
    fun ctx => Whoami ctx (contextOf whoami.raw) := by
  rw [WhoAmI.owns, createContext]
  cases whoami.ctx with
  | some ctx => exact .ofPure (.refl _)
  | none =>
      refine .allocThen fun cctx => ?_
      rw [mul_one]
      refine newWhoami_spec.bind fun handler => ?_
      rw [mul_comm]
      exact Triple.dropThen .free (.ofPure (.refl _))

/-- The results are freed once they are read. -/
theorem convertGetCFGOutput_spec {address : Nat} {values : List (Ffi.ConfigValue Pri)} :
    Triple (Results address values) (convertGetCFGOutput (some address)) fun answer =>
      fact (answer = .ok (Go.convertGetCFGOutput values)) := by
  refine (Triple.ofValue fun _ has => readConfigValues_eq has).bind fun found => .ofFact fun same => ?_
  rw [same]
  exact freeConfigValues_spec.bind fun _ => .ofPure fun _ nothing => ⟨rfl, nothing⟩

/-- The blocks that a call leaves behind. -/
def lostInQuery (answers : Answers Pri) (raw : GoString) (keys : List GoString) : Nat :=
  if keys = [] then 0 else lostInCall answers (contextOf raw) (keys.map cString)

/-- What the call returns, as the tags that the context was made of decide it. -/
def expected (answers : Answers Pri) (raw : GoString) (keys : List GoString) : Answer Pri :=
  Go.getCfgRawNoCache (fun texts => some (answers (contextOf raw) texts)) keys

theorem lostIn_ok {results : List (CFGResult Pri)} {values : List (Ffi.ConfigValue Pri)}
    (made : Ffi.convertGetCfgOutputValue results = .ok values) : lostIn results = 0 := by
  induction results generalizing values with
  | nil => rfl
  | cons result results ih =>
      rw [Ffi.convertGetCfgOutputValue, List.mapM_cons, bind_eq_ok] at made
      obtain ⟨value, first, made⟩ := made
      obtain ⟨rest, others, -⟩ := bind_eq_ok.mp made
      rw [lostIn, first]
      exact ih others

theorem lostInCall_ok {answers : Answers Pri} {context : MatchContext} {texts : List CText}
    {values : List (Ffi.ConfigValue Pri)} (made : converted answers context texts = .ok values) :
    lostInCall answers context texts = 0 := by
  rw [converted, bind_eq_ok] at made
  obtain ⟨keys, read, made⟩ := made
  rw [lostInCall, read]
  exact lostIn_ok made

/-- What a query returns for C strings that were read. -/
def answered (answers : Answers Pri) (context : MatchContext) (texts : List CText) : Answer Pri :=
  match converted answers context texts with
  | .ok values => .ok (Go.convertGetCFGOutput values)
  | .error _ => Rust.panics

theorem query_spec (answers : Answers Pri) {ctx : Nat} {context : MatchContext} (texts : List (Nat × CText)) :
    Triple (Whoami ctx context * Strings texts) (query answers ctx (texts.map Prod.fst)) fun answer =>
      fact (answer = answered answers context (texts.map Prod.snd)) *
        (Whoami ctx context * size (lostInCall answers context (texts.map Prod.snd))) := by
  have queried := Triple.ofReads (P := (Whoami ctx context * Strings texts : Owns Pri))
    (fun _ has => getConfig_reads answers has.left (strings_has has.right))
    (answerTexts_spec answers context (texts.map Prod.snd))
  refine queried.bind fun t => ?_
  rw [← mul_assoc, mul_comm, answered]
  refine Triple.dropThen (freeCStrings_spec texts) ?_
  cases t with
  | ok address =>
      rw [Ffi.Raw.Outcome, ex_mul]
      refine .ofEx fun values => ?_
      rw [mul_assoc]
      refine .ofFact fun made => ?_
      rw [made, lostInCall_ok made]
      refine (convertGetCFGOutput_spec.frame _).consequence (.refl _) fun answer => ?_
      have nothing := (Entails.refl (Whoami ctx context)).mul (one_size : Entails (1 : Owns Pri) (size 0))
      rw [mul_one] at nothing
      exact (Entails.refl _).mul nothing
  | error reason =>
      rw [Ffi.Raw.Outcome, mul_assoc]
      refine .ofFact fun fails => .ofPure fun blocks holds => fact_mul_apply.mpr ⟨?_, ?_⟩
      · rw [fails]
      · rwa [mul_comm] at holds

/-- A call with tags of which the context was not freed gives the answer, keeps a context for the
tags and leaves only what the library lost. -/
theorem getFrom_spec (answers : Answers Pri) (whoami : WhoAmI) (keys : List GoString) :
    Triple whoami.owns (getFrom answers whoami keys) fun result =>
      fact (result.2 = expected answers whoami.raw keys ∧ result.1.raw = whoami.raw ∧
        (result.1.ctx.isSome ↔ whoami.ctx.isSome ∨ keys ≠ [])) *
      (result.1.owns * size (lostInQuery answers whoami.raw keys)) := by
  rw [getFrom, convertGetCFGInput, expected, Go.getCfgRawNoCache, lostInQuery]
  by_cases empty : keys = []
  · simp only [if_pos empty]
    refine .ofPure fun blocks holds => fact_mul_apply.mpr ⟨⟨rfl, rfl, by simp [empty]⟩, ?_⟩
    have nothing := (Entails.refl whoami.owns).mul (one_size : Entails (1 : Owns Pri) (size 0))
    rw [mul_one] at nothing
    exact nothing blocks holds
  · simp only [if_neg empty, ExceptT.run_bind_lift, bind_assoc]
    refine (newCStrings_spec keys).beside.bind fun ckeys => ?_
    rw [ex_mul]
    refine .ofEx fun texts => ?_
    rw [mul_assoc]
    refine .ofFact fun same => ?_
    rw [mul_comm, ← same.1]
    refine ((createContext_spec whoami).frame _).bind fun ctx => ?_
    rw [ExceptT.run_pure, pure_bind]
    refine (query_spec answers texts).bind fun answer => .ofFact fun made => .ofPure fun blocks holds => ?_
    refine fact_mul_apply.mpr ⟨⟨?_, rfl, by simp [empty]⟩, ?_⟩
    · rw [made, answered, same.2, converted_eq]
      cases converted answers (contextOf whoami.raw) (keys.map cString) <;> rfl
    · rwa [same.2] at holds

end Calls

/-! ## Clients -/

/-- Tags, with whether their context was freed, which the binding does not keep. -/
structure Tags where
  whoami : WhoAmI
  freed : Bool

/-- What a client of the binding has, with the number of blocks that nobody points to. -/
structure Client (Pri : Type) where
  heap : Heap (Cell Pri)
  tags : List Tags
  lost : Nat

def Client.start : Client Pri := { heap := .empty, tags := [], lost := 0 }

/-- A query of a namespace, or of the old or the new side of a differ. -/
inductive Query (Pri : Type) where
  | getCfgRawNoCache (c : Namespace Pri) (viewMode : ViewMode) (needExplain : Bool)
  | getFromOld (d : Differ Pri) (viewMode : ViewMode) (needExplain : Bool)
  | getFromNew (d : Differ Pri) (viewMode : ViewMode) (needExplain : Bool)

namespace Query

def run (whoami : WhoAmI) (keys : List GoString) : Query Pri → Prog Pri (WhoAmI × Answer Pri)
  | .getCfgRawNoCache c viewMode needExplain => c.getCfgRawNoCache whoami keys viewMode needExplain
  | .getFromOld d viewMode needExplain => d.getFromOld whoami keys viewMode needExplain
  | .getFromNew d viewMode needExplain => d.getFromNew whoami keys viewMode needExplain

/-- What the library answers. -/
def answers : Query Pri → Answers Pri
  | .getCfgRawNoCache c viewMode needExplain => c.getConfig viewMode needExplain
  | .getFromOld d viewMode needExplain => d.differGetFromOld viewMode needExplain
  | .getFromNew d viewMode needExplain => d.differGetFromNew viewMode needExplain

theorem run_eq (query : Query Pri) (whoami : WhoAmI) (keys : List GoString) :
    query.run whoami keys = getFrom query.answers whoami keys := by
  cases query <;> rfl

end Query

/-- The tags of a client are named by the order in which it made them. -/
inductive Op (Pri : Type) where
  | newWhoAmI (raw : GoString)
  | get (query : Query Pri) (i : Nat) (keys : List GoString)
  | free (i : Nat)

inductive Goes : Client Pri → Op Pri × Option (Answer Pri) → Client Pri → Prop
  | newWhoAmI {s : Client Pri} {raw : GoString} : Goes s (.newWhoAmI raw, none)
      { s with tags := s.tags ++ [{ whoami := { ctx := none, raw }, freed := false }] }
  | get {s : Client Pri} {query : Query Pri} {i : Nat} {keys : List GoString} {tags : Tags}
      {whoami : WhoAmI} {answer : Answer Pri} {heap : Heap (Cell Pri)} :
      s.tags[i]? = some tags →
      query.run tags.whoami keys s.heap = some ((whoami, answer), heap) →
      Goes s (.get query i keys, some answer)
        { heap, tags := s.tags.set i { tags with whoami },
          lost := s.lost + lostInQuery query.answers tags.whoami.raw keys }
  | free {s : Client Pri} {i : Nat} {tags : Tags} {heap : Heap (Cell Pri)} :
      s.tags[i]? = some tags → tags.whoami.free s.heap = some ((), heap) →
      Goes s (.free i, none)
        { s with heap, tags := s.tags.set i { tags with freed := tags.freed || tags.whoami.ctx.isSome } }

/-- The tags that an operation is on. -/
def Op.on : Op Pri → Option Nat
  | .newWhoAmI _ => none
  | .get _ i _ => some i
  | .free i => some i

/-- The tags of which an operation needs the context. -/
def Op.uses : Op Pri → Option Nat
  | .newWhoAmI _ => none
  | .get _ i keys => if keys = [] then none else some i
  | .free i => some i

/-! ## Which contexts are there -/

abbrev Steps (Pri : Type) := List (Taken (Client Pri) (Op Pri × Option (Answer Pri)))

def Op.Queries (i : Nat) : Op Pri → Prop
  | .get _ j keys => j = i ∧ keys ≠ []
  | _ => False

def Queried (i : Nat) (steps : Steps Pri) : Prop := ∃ taken ∈ steps, taken.label.1.Queries i

/-- The tags were freed after a query had made their context. -/
def Freed (i : Nat) (steps : Steps Pri) : Prop :=
  ∃ before taken after, steps = before ++ taken :: after ∧ taken.label.1 = .free i ∧ Queried i before

def Tags.owns (tags : Tags) : Owns Pri := if tags.freed then 1 else tags.whoami.owns

/-- The context of the tags was freed. -/
def Tags.Gone (heap : Heap (Cell Pri)) (tags : Tags) : Prop :=
  ∃ ctx, tags.whoami.ctx = some ctx ∧ ctx < heap.next ∧ ctx ∉ heap.blocks

structure Client.Sound (s : Client Pri) : Prop where
  owned : ((s.tags.map Tags.owns).prod * size s.lost : Owns Pri) s.heap.blocks
  gone : ∀ tags ∈ s.tags, tags.freed → tags.Gone s.heap

section Clients

variable {s s' : Client Pri} {i : Nat} {tags : Tags} {heap : Heap (Cell Pri)} {query : Query Pri}
  {keys : List GoString}

/-- What tags own is there next to the rest, which stays when they change. -/
theorem tags_split {all : List Tags} (found : all[i]? = some tags) : ∃ rest : Owns Pri, ∀ now : Tags,
    ((all.set i now).map Tags.owns).prod = now.owns * rest := by
  obtain ⟨inside, -⟩ := List.getElem?_eq_some_iff.mp found
  refine ⟨((all.map Tags.owns).take i).prod * ((all.map Tags.owns).drop (i + 1)).prod, fun now => ?_⟩
  rw [List.map_set, List.prod_set, List.length_map, if_pos inside, mul_comm _ now.owns, mul_assoc]

theorem set_same {all : List Tags} (found : all[i]? = some tags) : all.set i tags = all := by
  obtain ⟨inside, same⟩ := List.getElem?_eq_some_iff.mp found
  rw [← same, List.set_getElem_self]

theorem Client.Sound.split (sound : s.Sound) (found : s.tags[i]? = some tags) :
    ∃ rest : Owns Pri, (tags.owns * (rest * size s.lost) : Owns Pri) s.heap.blocks ∧
      ∀ now : Tags, ((s.tags.set i now).map Tags.owns).prod = now.owns * rest := by
  obtain ⟨rest, whole⟩ : ∃ rest : Owns Pri, ∀ now : Tags,
      ((s.tags.set i now).map Tags.owns).prod = now.owns * rest := tags_split found
  have owned := sound.owned
  rw [← set_same found, whole, mul_assoc] at owned
  exact ⟨rest, owned, whole⟩

/-- Blocks that were freed stay away. -/
theorem Client.Sound.gone_set (sound : s.Sound) (later : s.heap.next ≤ heap.next)
    (old : ∀ address < s.heap.next, address ∉ s.heap.blocks → address ∉ heap.blocks) {now : Tags}
    (here : now.freed → now.Gone heap) : ∀ tags ∈ s.tags.set i now, tags.freed → tags.Gone heap := by
  intro tags member freed
  rcases List.mem_or_eq_of_mem_set member with before | rfl
  · obtain ⟨ctx, made, below, away⟩ := sound.gone tags before freed
    exact ⟨ctx, made, Nat.lt_of_lt_of_le below later, old ctx below away⟩
  · exact here freed

/-- A query with tags that are not freed. -/
theorem Client.Sound.get (sound : s.Sound) (found : s.tags[i]? = some tags) (kept : tags.freed = false)
    (query : Query Pri) (keys : List GoString) :
    ∃ whoami heap, query.run tags.whoami keys s.heap =
        some ((whoami, expected query.answers tags.whoami.raw keys), heap) ∧
      (whoami.ctx.isSome ↔ tags.whoami.ctx.isSome ∨ keys ≠ []) ∧
      ({ heap, tags := s.tags.set i { tags with whoami },
         lost := s.lost + lostInQuery query.answers tags.whoami.raw keys } : Client Pri).Sound := by
  obtain ⟨rest, owned, whole⟩ := sound.split found
  have there : (tags.owns : Owns Pri) = tags.whoami.owns := if_neg (by simp [kept])
  rw [there] at owned
  obtain ⟨⟨whoami, answer⟩, heap, ran, left, later, old⟩ :=
    (getFrom_spec query.answers tags.whoami keys).run owned
  rw [← query.run_eq] at ran
  rw [mul_assoc] at left
  obtain ⟨⟨rfl, -, made⟩, left⟩ := fact_mul_apply.mp left
  refine ⟨whoami, heap, ran, made, ?_, sound.gone_set later old fun freed => absurd freed (by simp [kept])⟩
  have now : (Tags.owns { tags with whoami } : Owns Pri) = whoami.owns := if_neg (by simp [kept])
  rw [whole, now, mul_assoc]
  rw [mul_assoc, mul_left_comm (size _), mul_comm (size _)] at left
  exact (Entails.refl _).mul ((Entails.refl _).mul size_mul) _ left

theorem freeWhoami_missing {ctx : Nat} (missing : ctx ∉ heap.blocks) : freeWhoami ctx heap = none :=
  bind_faults (bind_faults (read_missing missing))

/-- A query with tags of which the context was freed. -/
theorem get_gone (gone : tags.Gone heap) (asked : keys ≠ []) :
    query.run tags.whoami keys heap = none := by
  obtain ⟨ctx, made, below, away⟩ := gone
  obtain ⟨ckeys, heap', ran, -, old⟩ := (newCStrings_spec keys).runs heap
  have kept : (createContext tags.whoami : Prog Pri Nat) = pure ctx := by rw [createContext, made]
  rw [query.run_eq, getFrom, convertGetCFGInput, if_neg asked, kept, ExceptT.run_bind_lift, bind_assoc,
    bind_runs ran, ExceptT.run_bind_lift, pure_bind, ExceptT.run_pure, pure_bind]
  have missing : readWhoami ctx heap' = none := bind_faults (read_missing (old ctx below away))
  have queried : Raw.query query.answers ctx ckeys heap' = none := by
    rw [Raw.query, Ffi.Raw.getConfig, ExceptT.run_bind_lift, bind_assoc]
    exact bind_faults missing
  exact bind_faults queried

theorem Client.Sound.free (sound : s.Sound) (found : s.tags[i]? = some tags) (kept : tags.freed = false) :
    ∃ heap, tags.whoami.free s.heap = some ((), heap) ∧
      ({ s with heap, tags := s.tags.set i { tags with freed := tags.freed || tags.whoami.ctx.isSome } } :
        Client Pri).Sound := by
  obtain ⟨rest, owned, whole⟩ := sound.split found
  have there : (tags.owns : Owns Pri) = tags.whoami.owns := if_neg (by simp [kept])
  rw [WhoAmI.free, kept, Bool.false_or]
  cases made : tags.whoami.ctx with
  | none =>
      have same : ({ tags with freed := Option.isSome (none : Option Nat) } : Tags) = tags := by
        rw [Option.isSome_none, ← kept]
      rw [same, set_same found]
      exact ⟨s.heap, rfl, sound⟩
  | some ctx =>
      rw [there, WhoAmI.owns, made] at owned
      have found' : readWhoami ctx s.heap = some (contextOf tags.whoami.raw, s.heap) := readWhoami_eq ⟨_, owned⟩
      obtain ⟨_, heap, ran, left, later, old⟩ := freeWhoami_spec.run owned
      have freed := ran
      rw [freeWhoami, bind_runs found'] at freed
      refine ⟨heap, ran, ?_, sound.gone_set later old fun _ => ⟨ctx, made, ?_, (free_eq_some freed).2⟩⟩
      · have now : (Tags.owns { tags with freed := Option.isSome (some ctx) } : Owns Pri) = 1 := if_pos rfl
        rw [whole, now, mul_assoc]
        exact left
      · exact Nat.lt_of_lt_of_le (free_eq_some freed).1 later

theorem free_gone (gone : tags.Gone heap) : tags.whoami.free heap = none := by
  obtain ⟨ctx, made, -, away⟩ := gone
  rw [WhoAmI.free, made]
  exact freeWhoami_missing away

/-- A call without keys stops before it needs the tags. -/
theorem get_nothing (query : Query Pri) (whoami : WhoAmI) (heap : Heap (Cell Pri)) :
    query.run whoami [] heap = some ((whoami, expected query.answers whoami.raw []), heap) := by
  rw [query.run_eq]
  rfl

/-- A call that returned. -/
theorem Client.Sound.got (sound : s.Sound) (found : s.tags[i]? = some tags) {whoami : WhoAmI}
    {answer : Answer Pri}
    (ran : query.run tags.whoami keys s.heap = some ((whoami, answer), heap)) :
    answer = expected query.answers tags.whoami.raw keys ∧
      (whoami.ctx.isSome ↔ tags.whoami.ctx.isSome ∨ keys ≠ []) ∧
      ({ heap, tags := s.tags.set i { tags with whoami },
         lost := s.lost + lostInQuery query.answers tags.whoami.raw keys } : Client Pri).Sound := by
  by_cases asked : keys = []
  · rw [asked, get_nothing] at ran
    cases ran
    rw [asked, lostInQuery, if_pos rfl, set_same found]
    exact ⟨rfl, by simp, sound⟩
  · cases kept : tags.freed with
    | true =>
        rw [get_gone (sound.gone tags (List.mem_of_getElem? found) kept) asked] at ran
        cases ran
    | false =>
        obtain ⟨whoami, heap, ran', made, sound'⟩ := sound.get found kept query keys
        rw [ran'] at ran
        cases ran
        rw [kept] at sound'
        exact ⟨rfl, made, sound'⟩

theorem Client.Sound.freed (sound : s.Sound) (found : s.tags[i]? = some tags)
    (ran : tags.whoami.free s.heap = some ((), heap)) :
    ({ s with heap, tags := s.tags.set i { tags with freed := tags.freed || tags.whoami.ctx.isSome } } :
      Client Pri).Sound := by
  cases kept : tags.freed with
  | true =>
      rw [free_gone (sound.gone tags (List.mem_of_getElem? found) kept)] at ran
      cases ran
  | false =>
      obtain ⟨heap, ran', sound'⟩ := sound.free found kept
      rw [ran'] at ran
      cases ran
      rw [kept] at sound'
      exact sound'

theorem Client.start_sound : (Client.start : Client Pri).Sound where
  owned := by
    change (1 * size 0 : Owns Pri) ∅
    rw [one_mul]
    rfl
  gone := fun tags member => absurd member List.not_mem_nil

theorem Goes.sound {label : Op Pri × Option (Answer Pri)} (step : Goes s label s') (sound : s.Sound) :
    s'.Sound := by
  cases step with
  | @newWhoAmI raw =>
      refine ⟨?_, fun tags member freed => ?_⟩
      · have fresh : (Tags.owns { whoami := { ctx := none, raw }, freed := false } : Owns Pri) = 1 := rfl
        rw [List.map_append, List.prod_append, List.map_singleton, List.prod_singleton, fresh, mul_one]
        exact sound.owned
      · rcases List.mem_append.mp member with before | new
        · exact sound.gone tags before freed
        · rw [List.mem_singleton.mp new] at freed
          cases freed
  | get found ran => exact (sound.got found ran).2.2
  | free found ran => exact sound.freed found ran

end Clients

/-! ## Runs of a client -/

theorem queried_snoc {i : Nat} {steps : Steps Pri} {taken : Taken (Client Pri) (Op Pri × Option (Answer Pri))} :
    Queried i (steps ++ [taken]) ↔ Queried i steps ∨ taken.label.1.Queries i := by
  simp [Queried, or_and_right, exists_or]

theorem freed_iff {i : Nat} {steps : Steps Pri} : Freed i steps ↔
    ¬ Each (fun before taken => ¬ (taken.label.1 = .free i ∧ Queried i before)) steps := by
  simp [Freed, Each]

theorem freed_snoc {i : Nat} {steps : Steps Pri} {taken : Taken (Client Pri) (Op Pri × Option (Answer Pri))} :
    Freed i (steps ++ [taken]) ↔ Freed i steps ∨ (taken.label.1 = .free i ∧ Queried i steps) := by
  rw [freed_iff, each_snoc, freed_iff, not_and_or, not_not]

/-- What the steps so far say of the tags. -/
structure Client.Told (steps : Steps Pri) (s : Client Pri) : Prop where
  made : ∀ taken ∈ steps, ∀ i, taken.label.1.on = some i → i < s.tags.length
  queried : ∀ i tags, s.tags[i]? = some tags → (tags.whoami.ctx.isSome ↔ Queried i steps)
  freed : ∀ i tags, s.tags[i]? = some tags → (tags.freed ↔ Freed i steps)

theorem getElem?_set_cases {all : List Tags} {i j : Nat} {now tags : Tags}
    (found : (all.set j now)[i]? = some tags) : (i = j ∧ tags = now) ∨ (i ≠ j ∧ all[i]? = some tags) := by
  by_cases same : i = j
  · subst same
    obtain ⟨inside, rfl⟩ := List.getElem?_eq_some_iff.mp found
    exact .inl ⟨rfl, List.getElem_set_self inside⟩
  · rw [List.getElem?_set_ne (Ne.symm same)] at found
    exact .inr ⟨same, found⟩

theorem getElem?_snoc_cases {all : List Tags} {i : Nat} {now tags : Tags}
    (found : (all ++ [now])[i]? = some tags) : all[i]? = some tags ∨ (i = all.length ∧ tags = now) := by
  rw [List.getElem?_append] at found
  split at found
  · exact .inl found
  · obtain ⟨inside, same⟩ := List.getElem?_eq_some_iff.mp found
    rw [List.length_singleton] at inside
    exact .inr ⟨by omega, by simpa using same.symm⟩

section Runs

variable {s s' : Client Pri} {steps : Steps Pri} {label : Op Pri × Option (Answer Pri)}

theorem Goes.made (step : Goes s label s') :
    s.tags.length ≤ s'.tags.length ∧ ∀ i, label.1.on = some i → i < s'.tags.length := by
  cases step with
  | newWhoAmI => exact ⟨by simp, fun _ on => by cases on⟩
  | get found ran =>
      obtain ⟨inside, -⟩ := List.getElem?_eq_some_iff.mp found
      refine ⟨by simp, fun _ on => ?_⟩
      cases on
      simpa using inside
  | free found ran =>
      obtain ⟨inside, -⟩ := List.getElem?_eq_some_iff.mp found
      refine ⟨by simp, fun _ on => ?_⟩
      cases on
      simpa using inside

/-- No step is about tags that are not made yet. -/
theorem Client.Told.unmade (told : s.Told steps) :
    ¬ Queried s.tags.length steps ∧ ¬ Freed s.tags.length steps := by
  constructor
  · intro queried
    obtain ⟨taken, member, asked⟩ := queried
    have on : taken.label.1.on = some s.tags.length := by
      cases op : taken.label.1 with
      | get answers i keys =>
          rw [op] at asked
          rw [Op.on, asked.1]
      | newWhoAmI raw => rw [op] at asked; cases asked
      | free i => rw [op] at asked; cases asked
    exact Nat.lt_irrefl _ (told.made taken member _ on)
  · intro freed
    obtain ⟨before, taken, after, rfl, free, -⟩ := freed
    exact Nat.lt_irrefl _ (told.made taken (by simp) _ (by rw [free]; rfl))

theorem Client.Told.next (told : s.Told steps) (sound : s.Sound) (step : Goes s label s') :
    s'.Told (steps ++ [⟨s, label, s'⟩]) := by
  have more := step.made
  have made : ∀ taken ∈ steps ++ [⟨s, label, s'⟩], ∀ i, taken.label.1.on = some i → i < s'.tags.length := by
    rw [List.forall_mem_append, List.forall_mem_singleton]
    exact ⟨fun taken member i on => Nat.lt_of_lt_of_le (told.made taken member i on) more.1, more.2⟩
  cases step with
  | @newWhoAmI raw =>
      refine ⟨made, fun i tags found => ?_, fun i tags found => ?_⟩
      · rw [queried_snoc]
        rcases getElem?_snoc_cases found with before | ⟨rfl, rfl⟩
        · simp [told.queried _ _ before, Op.Queries]
        · simp [told.unmade, Op.Queries]
      · rw [freed_snoc]
        rcases getElem?_snoc_cases found with before | ⟨rfl, rfl⟩
        · simp [told.freed _ _ before]
        · simp [told.unmade]
  | get found ran =>
      obtain ⟨-, now, -⟩ := sound.got found ran
      refine ⟨made, fun i tags found' => ?_, fun i tags found' => ?_⟩
      · rw [queried_snoc]
        rcases getElem?_set_cases found' with ⟨rfl, rfl⟩ | ⟨other, before⟩
        · rw [now, told.queried _ _ found, Op.Queries]
          simp
        · rw [told.queried _ _ before]
          simp [Op.Queries, Ne.symm other]
      · rw [freed_snoc]
        rcases getElem?_set_cases found' with ⟨rfl, rfl⟩ | ⟨other, before⟩
        · rw [told.freed _ _ found]
          simp
        · rw [told.freed _ _ before]
          simp
  | free found ran =>
      refine ⟨made, fun i tags found' => ?_, fun i tags found' => ?_⟩
      · rw [queried_snoc]
        rcases getElem?_set_cases found' with ⟨rfl, rfl⟩ | ⟨other, before⟩
        · rw [told.queried _ _ found]
          simp [Op.Queries]
        · rw [told.queried _ _ before]
          simp [Op.Queries]
      · rw [freed_snoc]
        rcases getElem?_set_cases found' with ⟨rfl, rfl⟩ | ⟨other, before⟩
        · rw [Bool.or_eq_true, told.freed _ _ found, told.queried _ _ found]
          simp
        · rw [told.freed _ _ before]
          simp [Ne.symm other]

theorem run_told (run : Run Goes .start steps s) : s.Sound ∧ s.Told steps := by
  have keeps : ∀ (state : Client Pri) label next, state.Sound → Goes state label next → next.Sound :=
    fun _ _ _ sound step => step.sound sound
  refine ⟨run.invariant Client.start_sound keeps, run.history Client.start_sound keeps ?_ ?_⟩
  · exact ⟨fun _ member => absurd member List.not_mem_nil, fun _ _ found => by simp [Client.start] at found,
      fun _ _ found => by simp [Client.start] at found⟩
  · exact fun _ _ _ _ sound told step => told.next sound step

/-- An operation returns exactly if it does not need a context that was freed. -/
theorem Client.Sound.returns_iff (sound : s.Sound) (told : s.Told steps) {op : Op Pri}
    (possible : ∀ i, op.on = some i → i < s.tags.length) :
    (∃ answer s', Goes s (op, answer) s') ↔ ∀ i, op.uses = some i → ¬ Freed i steps := by
  cases op with
  | newWhoAmI raw => exact ⟨fun _ _ uses => (by cases uses), fun _ => ⟨_, _, .newWhoAmI⟩⟩
  | get query i keys =>
      have inside := possible i rfl
      have found := List.getElem?_eq_getElem inside
      have freed := told.freed _ _ found
      by_cases asked : keys = []
      · subst asked
        exact ⟨fun _ _ uses => (by cases uses), fun _ => ⟨_, _, .get found (get_nothing query _ _)⟩⟩
      · simp only [Op.uses, if_neg asked, Option.some.injEq, forall_eq', ← freed]
        cases kept : s.tags[i].freed with
        | false =>
            obtain ⟨_, _, ran, -⟩ := sound.get found kept query keys
            exact iff_of_true ⟨_, _, .get found ran⟩ Bool.false_ne_true
        | true =>
            refine iff_of_false (fun returns => ?_) fun not => not rfl
            obtain ⟨_, _, step⟩ := returns
            cases step with
            | get found' ran =>
                rw [found] at found'
                cases found'
                rw [get_gone (sound.gone _ (List.getElem_mem _) kept) asked] at ran
                cases ran
  | free i =>
      have inside := possible i rfl
      have found := List.getElem?_eq_getElem inside
      have freed := told.freed _ _ found
      simp only [Op.uses, Option.some.injEq, forall_eq', ← freed]
      cases kept : s.tags[i].freed with
      | false =>
          obtain ⟨_, ran, -⟩ := sound.free found kept
          exact iff_of_true ⟨_, _, .free found ran⟩ Bool.false_ne_true
      | true =>
          refine iff_of_false (fun returns => ?_) fun not => not rfl
          obtain ⟨_, _, step⟩ := returns
          cases step with
          | free found' ran =>
              rw [found] at found'
              cases found'
              rw [free_gone (sound.gone _ (List.getElem_mem _) kept)] at ran
              cases ran

/-- As many contexts as there are. -/
def Client.contexts (s : Client Pri) : Nat :=
  s.tags.countP fun tags => tags.whoami.ctx.isSome && !tags.freed

theorem tags_size (all : List Tags) : Entails ((all.map Tags.owns).prod : Owns Pri)
    (size (all.countP fun tags => tags.whoami.ctx.isSome && !tags.freed)) := by
  induction all with
  | nil => exact one_size
  | cons tags all ih =>
      have one : Entails (tags.owns : Owns Pri)
          (size (if tags.whoami.ctx.isSome && !tags.freed then 1 else 0)) := by
        rw [Tags.owns, WhoAmI.owns]
        cases tags.freed with
        | true => simpa using one_size
        | false =>
            cases tags.whoami.ctx with
            | none => exact one_size
            | some ctx => exact pointsTo_size _ _
      rw [List.map_cons, List.prod_cons, List.countP_cons, Nat.add_comm]
      exact (one.mul ih).trans size_mul

/-- Whatever a client does, an operation fails only on tags that were freed after a query had
made their context, as `Free` keeps the pointer. All others return, queries with what the
library answers for the tags, and there are as many blocks as contexts that were not freed
and as failing queries left behind together. -/
theorem client_sound (steps : Steps Pri) (s : Client Pri) (run : Run Goes .start steps s) :
    (∀ op : Op Pri, (∀ i, op.on = some i → i < s.tags.length) →
      ((∃ answer s', Goes s (op, answer) s') ↔ ∀ i, op.uses = some i → ¬ Freed i steps)) ∧
    (∀ taken ∈ steps, ∀ query i keys answer, taken.label = (.get query i keys, some answer) →
      ∃ tags, taken.before.tags[i]? = some tags ∧ answer = expected query.answers tags.whoami.raw keys) ∧
    s.heap.blocks.keys.card = s.contexts + s.lost := by
  obtain ⟨sound, told⟩ := run_told run
  refine ⟨fun op possible => sound.returns_iff told possible, ?_, ?_⟩
  · intro taken member query i keys answer asked
    obtain ⟨before, after, rfl⟩ := List.append_of_mem member
    obtain ⟨earlier, step, -⟩ := run.split_at
    generalize taken.after = after at step
    rw [asked] at step
    cases step with
    | get found ran => exact ⟨_, found, ((run_told earlier).1.got found ran).1⟩
  · exact ((tags_size s.tags).mul (.refl _)).trans size_mul _ sound.owned

end Runs

/-- A query of a namespace that answers each key with its own name. -/
def echoQuery : Query Nat := .getCfgRawNoCache ⟨fun _ _ => echo⟩ .overlaidView false

/-- Tags that are queried with, freed and used again. -/
theorem client_sound_sample : ∃ steps, ∃ s : Client Nat, Run Goes .start steps s ∧ s.tags.length = 1 ∧
    (∀ keys, keys ≠ [] → ¬ ∃ answer s', Goes s (.get echoQuery 0 keys, answer) s') ∧
    (∃ taken ∈ steps, taken.label = (.get echoQuery 0 [[107]], some (expected echo [120] [[107]]))) ∧
    s.heap.blocks.keys.card = 0 := by
  have made : Goes (.start : Client Nat) (.newWhoAmI [120], none) _ := .newWhoAmI
  have sound := made.sound Client.start_sound
  obtain ⟨whoami, heap, ran, context, sound'⟩ :=
    sound.get (rfl : [(⟨⟨none, [120]⟩, false⟩ : Tags)][0]? = some ⟨⟨none, [120]⟩, false⟩) rfl echoQuery [[107]]
  have queried : Goes (_ : Client Nat) (.get echoQuery 0 [[107]], some (expected echo [120] [[107]])) _ :=
    .get rfl ran
  obtain ⟨heap', ran', -⟩ := sound'.free
    (rfl : [(⟨whoami, false⟩ : Tags)][0]? = some ⟨whoami, false⟩) rfl
  have freed : Goes (_ : Client Nat) (.free 0, none) _ := .free rfl ran'
  have run := ((Run.nil.snoc made).snoc queried).snoc freed
  obtain ⟨returns, answered, count⟩ := client_sound _ _ run
  refine ⟨_, _, run, rfl, fun keys asked => ?_,
    ⟨_, List.mem_append_left _ (List.mem_append_right _ (List.mem_singleton_self _)), rfl⟩, ?_⟩
  · rw [returns (.get echoQuery 0 keys) (by simp [Op.on])]
    intro kept
    exact kept 0 (if_neg asked) (freed_snoc.mpr (.inr ⟨rfl, queried_snoc.mpr (.inr ⟨rfl, by simp⟩)⟩))
  · have nothing : lostInQuery echoQuery.answers [120] [[107]] = 0 := by
      rw [lostInQuery, if_neg (by simp)]
      exact lostInCall_ok (echo_converted (contextOf [120]))
    rw [count]
    change List.countP _ [(⟨whoami, whoami.ctx.isSome⟩ : Tags)] + (0 + lostInQuery echoQuery.answers [120] [[107]]) = 0
    rw [nothing, List.countP_singleton, Bool.and_not_self]
    rfl

end Eafcc.Go.Raw
