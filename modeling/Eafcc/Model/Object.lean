import Eafcc.Error
import Eafcc.Parser.Rule

namespace Eafcc.Model

open Eafcc.RuleEngine

/-! # Configuration objects

Rules, links and resources as they are stored, and their loaders.  The crates
`serde_json`, `nom` and `unescape` are not part of the repository: what the
loaders take from them is `Crates`.
-/

abbrev ObjectID := Bytes

/-- A JSON value. Its numbers are kept as they are written. -/
inductive Json where
  | null
  | bool (value : Bool)
  | number (digits : Str)
  | string (text : Str)
  | array (items : List Json)
  | object (fields : List (Str × Json))

/-- `pointer("/name")` for a name that is not an array index. -/
def Json.member (name : Str) : Json → Option Json
  | .object fields => fields.lookup name
  | _ => none

def Json.asStr : Json → Option Str
  | .string text => some text
  | _ => none

structure RootCommon where
  version : UInt32
  kind : Str
  metadata : Json
  spec : Json

/-- `RuleMeta`, `LinkMeta` and `ResMeta` have the same fields. -/
structure Meta where
  desc : Str
  tags : List Str
deriving Repr, DecidableEq

abbrev RuleMeta := Meta
abbrev LinkMeta := Meta
abbrev ResMeta := Meta

/-- A 32-bit float, of which only the order of the finite ones is used. -/
inductive F32 (Pri : Type) where
  | finite (value : Pri)
  | infinite (negative : Bool)
  | nan

structure RuleSpec where
  rule : Condition

structure Rule where
  metadata : RuleMeta
  spec : RuleSpec

/-- The priority is any float in a decoded link and a finite one in a loaded
link. -/
structure LinkSpec (Float : Type) where
  pri : Float
  isNeg : Bool
  ver : Str
  rule : Str
  reses : List Str

structure Link (Pri : Type) where
  metadata : LinkMeta
  spec : LinkSpec Pri

structure ResSpecItem where
  contentType : Str
  key : Str
  data : Str
  schema : Json

structure ResSpec where
  items : List ResSpecItem

structure Res where
  metadata : ResMeta
  spec : ResSpec

/-- What the loaders use of crates outside the repository. -/
structure Crates (Pri : Type) where
  unescape : Str → Option Str
  /-- The text of the error with which the parser rejects a rule. -/
  syntaxError : Str → Str
  rootCommon : Bytes → Except SerdeError RootCommon
  metadata : Json → Except SerdeError Meta
  linkSpec : Json → Except SerdeError (LinkSpec (F32 Pri))
  resSpec : Json → Except SerdeError ResSpec

section Loaders

variable {Pri : Type} (crates : Crates Pri)

/-- `?` on a result of `serde_json`. -/
def unmarshal {α : Type} : Except SerdeError α → Except DataLoaderError α
  | .ok value => .ok value
  | .error cause => .error (.unmarshalError cause)

def Rule.loadFromSlice (ruleData : Bytes) : Except DataLoaderError Rule := do
  let root ← unmarshal (crates.rootCommon ruleData)
  let metadata ← unmarshal (crates.metadata root.metadata)
  match (root.spec.member "rule".toList).bind Json.asStr with
  | some ruleStr =>
      match Parser.Rule.doParse crates.unescape ruleStr with
      | some (left, cond) =>
          if left ≠ [] then
            .error (.specParseError
              ("syntax error in rule, some part not recognised: ".toList ++ left))
          else
            .ok { metadata, spec := { rule := cond } }
      | none => .error (.specParseError (crates.syntaxError ruleStr))
  | none => .error (.specParseError "no rule found or rule is not string".toList)

def Link.loadFromSlice (linkData : Bytes) : Except DataLoaderError (Link Pri) := do
  let root ← unmarshal (crates.rootCommon linkData)
  let metadata ← unmarshal (crates.metadata root.metadata)
  let spec ← unmarshal (crates.linkSpec root.spec)
  match spec.pri with
  | .finite pri => .ok { metadata, spec := { spec with pri } }
  | _ => .error (.specParseError "pri field is not a valid float number".toList)

def Res.loadFromSlice (resData : Bytes) : Except DataLoaderError Res := do
  let root ← unmarshal (crates.rootCommon resData)
  let metadata ← unmarshal (crates.metadata root.metadata)
  let spec ← unmarshal (crates.resSpec root.spec)
  .ok { metadata, spec }

section Outcomes

variable {crates} {bytes : Bytes} {root : RootCommon} {metadata : Meta}

/-- When a rule file is accepted. -/
theorem Rule.loadFromSlice_eq_ok (decoded : crates.rootCommon bytes = .ok root)
    (described : crates.metadata root.metadata = .ok metadata) {ruleStr : Str} {cond : Condition}
    (found : (root.spec.member "rule".toList).bind Json.asStr = some ruleStr)
    (parsed : Parser.Rule.doParse crates.unescape ruleStr = some ([], cond)) :
    Rule.loadFromSlice crates bytes = .ok { metadata, spec := { rule := cond } } := by
  simp only [Rule.loadFromSlice, decoded, described, unmarshal, bind, Except.bind, found, parsed, ne_eq,
    not_true_eq_false, if_false]

/-- The condition of an accepted rule is what the parser makes of its whole text. -/
theorem Rule.loadFromSlice_parsed {ruleObj : Rule}
    (decoded : Rule.loadFromSlice crates bytes = .ok ruleObj) :
    ∃ ruleStr, Parser.Rule.doParse crates.unescape ruleStr = some ([], ruleObj.spec.rule) := by
  simp only [Rule.loadFromSlice, bind, Except.bind] at decoded
  split at decoded
  · cases decoded
  · split at decoded
    · cases decoded
    · split at decoded
      · rename_i ruleStr found
        split at decoded
        · rename_i left cond parsed
          split at decoded
          · cases decoded
          · rename_i whole
            cases decoded
            rw [not_not] at whole
            subst whole
            exact ⟨ruleStr, parsed⟩
        · cases decoded
      · cases decoded

theorem Link.loadFromSlice_eq_ok (decoded : crates.rootCommon bytes = .ok root)
    (described : crates.metadata root.metadata = .ok metadata) {spec : LinkSpec (F32 Pri)} {pri : Pri}
    (specified : crates.linkSpec root.spec = .ok spec) (finite : spec.pri = .finite pri) :
    Link.loadFromSlice crates bytes = .ok { metadata, spec := { spec with pri } } := by
  simp only [Link.loadFromSlice, decoded, described, specified, unmarshal, bind, Except.bind, finite]

theorem Res.loadFromSlice_eq_ok (decoded : crates.rootCommon bytes = .ok root)
    (described : crates.metadata root.metadata = .ok metadata) {spec : ResSpec}
    (specified : crates.resSpec root.spec = .ok spec) :
    Res.loadFromSlice crates bytes = .ok { metadata, spec } := by
  simp only [Res.loadFromSlice, decoded, described, specified, unmarshal, bind, Except.bind]

end Outcomes

end Loaders

end Eafcc.Model
