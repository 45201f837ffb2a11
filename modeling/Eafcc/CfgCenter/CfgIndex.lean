import Eafcc.Storage.Backend

namespace Eafcc.CfgCenter

open Eafcc.RuleEngine Eafcc.Model Eafcc.Storage

/-! # The index of a namespace

Maps are finite maps. Priorities are finite floats that are only compared, so
they are the elements of a linear order `Pri`.
-/

variable {Pri : Type}

/-! ## Rules -/

structure IdxRuleItem where
  rule : Condition
  absPath : Str

/-- The rules by path. A rule is stored under its own path. -/
structure RuleIndex where
  storage : Finmap (fun _ : Str => IdxRuleItem)
  filed : ∀ path item, storage.lookup path = some item → item.absPath = path

def RuleIndex.empty : RuleIndex where
  storage := ∅
  filed path item found := by simp at found

def RuleIndex.addRule (index : RuleIndex) (absPath : Str) (rule : Rule) : RuleIndex where
  storage := index.storage.insert absPath { rule := rule.spec.rule, absPath }
  filed path item found := by
    by_cases same : path = absPath
    · subst same
      rw [Finmap.lookup_insert] at found
      cases found
      rfl
    · rw [Finmap.lookup_insert_of_ne _ same] at found
      exact index.filed path item found

/-- An order in which the iteration over the rule map may visit its values. -/
def RuleIndex.Iteration (index : RuleIndex) (rules : List IdxRuleItem) : Prop :=
  (rules : Multiset IdxRuleItem) = index.storage.entries.map (·.2)

/-! ## Links -/

structure IdxLinkItem (Pri : Type) where
  pri : Pri
  isNeg : Bool
  rulePath : Str
  absResPath : Str
  linkPath : Str
deriving Repr, DecidableEq

structure LinkIndex (Pri : Type) where
  idxRuleToRes : Finmap (fun _ : Str => List (IdxLinkItem Pri))

def LinkIndex.empty : LinkIndex Pri := { idxRuleToRes := ∅ }

/-- The text after its first `count` bytes, or the panic of a slice that ends
before or within a character. -/
def sliceFrom : Nat → Str → Option Str
  | 0, text => some text
  | _ + 1, [] => none
  | count + 1, c :: text =>
      if c.utf8Size ≤ count + 1 then sliceFrom (count + 1 - c.utf8Size) text else none

/-- `&i[6..]`, meant to remove `path:/`. -/
def removePathTypePrefix (i : Str) : Option Str := sliceFrom 6 i

/-- The items of a link, `none` where a reference to a resource is too short. -/
def linkItems (linkPath : Str) (link : Link Pri) : Option (List (IdxLinkItem Pri)) :=
  link.spec.reses.mapM fun resPath =>
    (removePathTypePrefix resPath).map fun absResPath =>
      { pri := link.spec.pri, isNeg := link.spec.isNeg, rulePath := link.spec.rule, absResPath,
        linkPath }

/-- `none` is the panic of a reference that cannot be sliced. -/
def LinkIndex.addLink (index : LinkIndex Pri) (linkPath : Str) (link : Link Pri) :
    Option (LinkIndex Pri) :=
  match linkItems linkPath link with
  | none => none
  | some items =>
      match removePathTypePrefix link.spec.rule with
      | none => none
      | some ruleAbsPath =>
          let present := (index.idxRuleToRes.lookup ruleAbsPath).getD []
          some { idxRuleToRes := index.idxRuleToRes.insert ruleAbsPath (present ++ items) }

def LinkIndex.getLinkByRulePath (index : LinkIndex Pri) (rulePath : Str) :
    Option (List (IdxLinkItem Pri)) :=
  index.idxRuleToRes.lookup rulePath

/-! ## Resources -/

structure KeyValuePair where
  contentType : Str
  key : Str
  value : Str
deriving Repr, DecidableEq

structure Resource where
  data : List KeyValuePair
  resPath : Str
deriving Repr, DecidableEq

structure ResIndex where
  storage : Finmap (fun _ : Str => Resource)

def ResIndex.empty : ResIndex := { storage := ∅ }

def ResIndex.addRes (index : ResIndex) (resPath : Str) (res : Res) : ResIndex :=
  let data := res.spec.items.map fun spec =>
    { contentType := spec.contentType, key := spec.key, value := spec.data }
  { storage := index.storage.insert resPath { data, resPath } }

def ResIndex.getResByPath (index : ResIndex) (resPath : Str) : Option Resource :=
  index.storage.lookup resPath

/-! ## The index and its builder -/

structure CFGIndex (Pri : Type) where
  ruleStor : RuleIndex
  resStor : ResIndex
  linkStor : LinkIndex Pri

namespace CFGIndex

def empty : CFGIndex Pri := { ruleStor := .empty, resStor := .empty, linkStor := .empty }

def addRule (index : CFGIndex Pri) (path : Str) (ruleObj : Rule) : Option (CFGIndex Pri) :=
  some { index with ruleStor := index.ruleStor.addRule path ruleObj }

def addLink (index : CFGIndex Pri) (path : Str) (linkObj : Link Pri) : Option (CFGIndex Pri) :=
  (index.linkStor.addLink path linkObj).map fun linkStor => { index with linkStor }

def addRes (index : CFGIndex Pri) (path : Str) (resGroupObj : Res) : Option (CFGIndex Pri) :=
  some { index with resStor := index.resStor.addRes path resGroupObj }

end CFGIndex

section Builder

variable (crates : Crates Pri) (backend : StorageBackend)

/-- What a walk does at a node: decode a file and add it to the index under its
path without the name of its top directory. -/
def indexFile {Obj : Type} (directory : Str) (loadFromSlice : Bytes → Except DataLoaderError Obj)
    (add : CFGIndex Pri → Str → Obj → Option (CFGIndex Pri)) (index : CFGIndex Pri)
    (curNode : DirItem) : CFGIndex Pri × Rust WalkDirError WalkRetCtl :=
  if curNode.isDir then (index, .ok .next)
  else
    match backend.getObjByHash curNode.hash with
    | .error reason => (index, Rust.fail (.storageBackendError reason))
    | .ok rawData =>
        match loadFromSlice rawData with
        | .error reason => (index, Rust.fail (.dataLoaderError reason))
        | .ok obj =>
            match Path.stripPrefix curNode.absPath [directory] with
            | none => (index, Rust.panics)
            | some strSkipInternalPrefix =>
                match add index strSkipInternalPrefix obj with
                | none => (index, Rust.panics)
                | some index => (index, .ok .next)

/-- `load_rule`, `load_link` and `load_res` are one function of the directory,
the decoder and the place in the index. The index is dropped where it fails. -/
def loadObjects {Obj : Type} (directory : Str)
    (loadFromSlice : Bytes → Except DataLoaderError Obj)
    (add : CFGIndex Pri → Str → Obj → Option (CFGIndex Pri)) (fuel : Nat) (namespaceName : Str)
    (version : VersionItem) (index : CFGIndex Pri) :
    Option (Rust MemoryIndexError (CFGIndex Pri)) :=
  match namespaceName with
  | '/' :: relative =>
      let path := Path.join ('/' :: directory) relative
      (backend.walkDir (indexFile backend directory loadFromSlice add) fuel version path index).map
        fun (index, result) => (Rust.mapError .storageBackendError result).map fun _ => index
  | _ => some (Rust.fail .namespaceNotAbsolutePath)

def loadRule (fuel : Nat) (namespaceName : Str) (version : VersionItem) (index : CFGIndex Pri) :
    Option (Rust MemoryIndexError (CFGIndex Pri)) :=
  loadObjects backend "rules".toList (Rule.loadFromSlice crates) CFGIndex.addRule fuel namespaceName
    version index

def loadLink (fuel : Nat) (namespaceName : Str) (version : VersionItem) (index : CFGIndex Pri) :
    Option (Rust MemoryIndexError (CFGIndex Pri)) :=
  loadObjects backend "links".toList (Link.loadFromSlice crates) CFGIndex.addLink fuel namespaceName
    version index

def loadRes (fuel : Nat) (namespaceName : Str) (version : VersionItem) (index : CFGIndex Pri) :
    Option (Rust MemoryIndexError (CFGIndex Pri)) :=
  loadObjects backend "reses".toList (Res.loadFromSlice crates) CFGIndex.addRes fuel namespaceName
    version index

/-- One of the loaders after those before it. -/
def thenLoad {ε α β : Type} (first : Option (Rust ε α)) (next : α → Option (Rust ε β)) :
    Option (Rust ε β) :=
  match first with
  | none => none
  | some (.error failure) => some (.error failure)
  | some (.ok value) => next value

def IndexBuilder.load (fuel : Nat) (namespaceName : Str) (version : VersionItem) :
    Option (Rust MemoryIndexError (CFGIndex Pri)) :=
  thenLoad (loadRule crates backend fuel namespaceName version .empty) fun index =>
  thenLoad (loadLink crates backend fuel namespaceName version index) fun index =>
  loadRes crates backend fuel namespaceName version index

end Builder

/-! ## A loaded namespace -/

structure MemStorage (Pri : Type) where
  version : VersionItem
  indices : CFGIndex Pri

def MemStorage.new (crates : Crates Pri) (backend : StorageBackend) (fuel : Nat)
    (namespaceName : Str) (version : VersionItem) :
    Option (Rust MemoryIndexError (MemStorage Pri)) :=
  (IndexBuilder.load crates backend fuel namespaceName version).map fun loaded =>
    loaded.map fun indices => { version, indices }

end Eafcc.CfgCenter
