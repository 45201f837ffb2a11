import Eafcc.Go.Query
import Eafcc.Library.Lru

namespace Eafcc.Go

open Eafcc.CfgCenter Eafcc.Ffi

/-! # The cache of a namespace -/

/-! ## Keys -/

structure WhoAmI where
  raw : GoString
  hash : List UInt8

section Digest

variable (digest : List UInt8 → List UInt8)

def newWhoAmI (hashSalt raw : GoString) : WhoAmI where
  raw
  hash := digest (hashSalt ++ raw)

def viewModeByte : ViewMode → UInt8
  | .overlaidView => 0
  | .allLinkedResView => 1

/-- What the hasher is given for a cache key. -/
def cacheKeyText (whoamiHash : List UInt8) (key : GoString) (viewMode : ViewMode) (needExplain : Bool) :
    List UInt8 :=
  whoamiHash ++ [124] ++ key ++ [124] ++ [viewModeByte viewMode] ++ [if needExplain then 1 else 0]

def makeCacheKey (whoami : WhoAmI) (key : GoString) (viewMode : ViewMode) (needExplain : Bool) :
    GoString :=
  digest (cacheKeyText whoami.hash key viewMode needExplain)

/-- A key as a client of the namespace asks for it. -/
structure Request where
  whoami : GoString
  key : GoString
  viewMode : ViewMode
  needExplain : Bool

def Request.cacheKey (hashSalt : GoString) (request : Request) : GoString :=
  makeCacheKey digest (newWhoAmI digest hashSalt request.whoami) request.key request.viewMode
    request.needExplain

/-- The texts that are hashed for some requests. -/
def hashed (hashSalt : GoString) (requests : Set Request) : Set (List UInt8) :=
  (fun request : Request => hashSalt ++ request.whoami) '' requests ∪
    (fun request : Request => cacheKeyText (digest (hashSalt ++ request.whoami)) request.key
      request.viewMode request.needExplain) '' requests

/-- The digest has 32 bytes, and differs for the texts that are hashed. -/
structure NoCollisions (hashSalt : GoString) (requests : Set Request) : Prop where
  size : ∀ text, (digest text).length = 32
  injective : Set.InjOn digest (hashed digest hashSalt requests)

variable {digest} {hashSalt : GoString} {requests : Set Request} {request other : Request}

theorem viewModeByte_injective : Function.Injective viewModeByte := by
  intro first second same
  cases first <;> cases second <;> first | rfl | cases same

theorem cacheKeyText_injective {hash hash' key key' : List UInt8} {viewMode viewMode' : ViewMode}
    {needExplain needExplain' : Bool} (size : hash.length = hash'.length)
    (same : cacheKeyText hash key viewMode needExplain =
      cacheKeyText hash' key' viewMode' needExplain') :
    hash = hash' ∧ key = key' ∧ viewMode = viewMode' ∧ needExplain = needExplain' := by
  unfold cacheKeyText at same
  obtain ⟨same, explain⟩ := List.append_inj' same rfl
  obtain ⟨same, mode⟩ := List.append_inj' same rfl
  obtain ⟨same, -⟩ := List.append_inj' same rfl
  rw [List.append_assoc, List.append_assoc] at same
  obtain ⟨hashes, keys⟩ := List.append_inj same size
  have explains : needExplain = needExplain' := by
    cases needExplain <;> cases needExplain' <;> first | rfl | cases explain
  exact ⟨hashes, List.append_cancel_left keys, viewModeByte_injective (List.singleton_inj.mp mode),
    explains⟩

/-- The cache keys of different requests differ. -/
theorem NoCollisions.cacheKey_injective (noCollisions : NoCollisions digest hashSalt requests)
    (member : request ∈ requests) (member' : other ∈ requests)
    (same : request.cacheKey digest hashSalt = other.cacheKey digest hashSalt) : request = other := by
  have texts := noCollisions.injective (.inr (Set.mem_image_of_mem _ member))
    (.inr (Set.mem_image_of_mem _ member')) same
  obtain ⟨hashes, keys, viewModes, explains⟩ := cacheKeyText_injective
    ((noCollisions.size _).trans (noCollisions.size _).symm) texts
  have whoamis := noCollisions.injective (.inl (Set.mem_image_of_mem _ member))
    (.inl (Set.mem_image_of_mem _ member')) hashes
  have raws := List.append_cancel_left whoamis
  cases request
  cases other
  simp_all

theorem NoCollisions.mono {fewer : Set Request} (noCollisions : NoCollisions digest hashSalt requests)
    (subset : fewer ⊆ requests) : NoCollisions digest hashSalt fewer :=
  ⟨noCollisions.size, noCollisions.injective.mono
    (Set.union_subset_union (Set.image_mono subset) (Set.image_mono subset))⟩

theorem NoCollisions.cacheKey_ne_nil (noCollisions : NoCollisions digest hashSalt requests)
    (request : Request) : request.cacheKey digest hashSalt ≠ [] := by
  intro empty
  have size := noCollisions.size (cacheKeyText (digest (hashSalt ++ request.whoami)) request.key
    request.viewMode request.needExplain)
  change (request.cacheKey digest hashSalt).length = 32 at size
  rw [empty] at size
  cases size

end Digest

/-! ## Reading -/

variable {Pri : Type}

abbrev CfgCache (Pri : Type) := Lru.Cache GoString (List (CFGValue Pri))

structure Batch (Pri : Type) where
  cache : CfgCache Pri
  values : GoMap (List (CFGValue Pri))
  missingKeys : List GoString
  missingCacheKeysMap : GoMap GoString

/-- The body of the loop over the keys. -/
def readKey (cacheKey : GoString → GoString) (batch : Batch Pri) (key : GoString) : Batch Pri :=
  let get := batch.cache.get (cacheKey key)
  match get.1 with
  | some v => { batch with cache := get.2, values := batch.values.insert key v }
  | none =>
      { batch with
        cache := get.2
        missingKeys := batch.missingKeys ++ [key]
        missingCacheKeysMap := batch.missingCacheKeysMap.insert key (cacheKey key) }

/-- `cacheKey` gives the cache key of a key with the context and the flags of the
call. -/
def batchReadFromCache (cache : CfgCache Pri) (cacheKey : GoString → GoString) (keys : List GoString) :
    Batch Pri :=
  keys.foldl (readKey cacheKey)
    { cache, values := ∅, missingKeys := [], missingCacheKeysMap := ∅ }

variable {cache : CfgCache Pri} {cacheKey : GoString → GoString}

/-- The key is not in the cache. -/
def Missing (cache : CfgCache Pri) (cacheKey : GoString → GoString) (key : GoString) : Prop :=
  cache.lookup (cacheKey key) = none

instance : DecidablePred (Missing cache cacheKey) := fun key =>
  decidable_of_iff ((cache.lookup (cacheKey key)).isNone = true) Option.isNone_iff_eq_none

theorem batchReadFromCache_snoc (keys : List GoString) (key : GoString) :
    batchReadFromCache cache cacheKey (keys ++ [key]) =
      readKey cacheKey (batchReadFromCache cache cacheKey keys) key := by
  simp [batchReadFromCache]

theorem readKey_cache (batch : Batch Pri) (key : GoString) :
    (readKey cacheKey batch key).cache = (batch.cache.get (cacheKey key)).2 := by
  simp only [readKey]
  split <;> rfl

theorem batchReadFromCache_cache (keys : List GoString) :
    (batchReadFromCache cache cacheKey keys).cache = cache.readAll (keys.map cacheKey) := by
  induction keys using List.reverseRecOn with
  | nil => rfl
  | append_singleton keys key ih =>
      rw [batchReadFromCache_snoc, readKey_cache, ih]
      simp [Lru.Cache.readAll]

/-- What a lookup finds while the batch is being read. -/
theorem batch_get (keys : List GoString) (key : GoString) :
    ((batchReadFromCache cache cacheKey keys).cache.get (cacheKey key)).1 =
      cache.lookup (cacheKey key) := by
  rw [Lru.Cache.get_fst, batchReadFromCache_cache, Lru.Cache.readAll_lookup]

theorem batchReadFromCache_missingKeys (keys : List GoString) :
    (batchReadFromCache cache cacheKey keys).missingKeys =
      keys.filter fun key => Missing cache cacheKey key := by
  induction keys using List.reverseRecOn with
  | nil => rfl
  | append_singleton keys key ih =>
      simp only [batchReadFromCache_snoc, readKey, batch_get, List.filter_append, ← ih]
      cases found : cache.lookup (cacheKey key) <;> simp [Missing, found]

theorem batchReadFromCache_values (keys : List GoString) (key : GoString) :
    (batchReadFromCache cache cacheKey keys).values.lookup key =
      if key ∈ keys then cache.lookup (cacheKey key) else none := by
  induction keys using List.reverseRecOn with
  | nil => rfl
  | append_singleton keys other ih =>
      simp only [batchReadFromCache_snoc, readKey, batch_get]
      by_cases same : key = other
      · subst same
        cases found : cache.lookup (cacheKey key) with
        | some v => simp
        | none => simp [ih, found]
      · cases found : cache.lookup (cacheKey other) with
        | some v => simp [Finmap.lookup_insert_of_ne _ same, ih, same]
        | none => simp [ih, same]

theorem batchReadFromCache_missingCacheKeysMap (keys : List GoString) (key : GoString) :
    (batchReadFromCache cache cacheKey keys).missingCacheKeysMap.lookup key =
      if key ∈ keys ∧ Missing cache cacheKey key then some (cacheKey key) else none := by
  induction keys using List.reverseRecOn with
  | nil => rfl
  | append_singleton keys other ih =>
      simp only [batchReadFromCache_snoc, readKey, batch_get]
      by_cases same : key = other
      · subst same
        cases found : cache.lookup (cacheKey key) with
        | some v => simp [ih, Missing, found]
        | none => simp [Missing, found]
      · cases found : cache.lookup (cacheKey other) with
        | some v => simp [ih, same]
        | none => simp [Finmap.lookup_insert_of_ne _ same, ih, same]

/-! ## Adding -/

/-- An order in which the iteration over a map may go. -/
def Listing {α : Type} (t : GoMap α) (order : List (GoString × α)) : Prop :=
  (order.map Prod.fst).Nodup ∧ ∀ key value, (key, value) ∈ order ↔ t.lookup key = some value

/-- The loop over the values that were loaded. A key that is not in the map of
cache keys has the empty string there. -/
def addAll (cache : CfgCache Pri) (missingCacheKeysMap : GoMap GoString)
    (order : List (GoString × List (CFGValue Pri))) : CfgCache Pri :=
  order.foldl (fun cache item => cache.add ((missingCacheKeysMap.lookup item.1).getD []) item.2) cache

/-- The entries that the loop adds. -/
def added (missingCacheKeysMap : GoMap GoString) (order : List (GoString × List (CFGValue Pri))) :
    List (GoString × List (CFGValue Pri)) :=
  order.map fun item => ((missingCacheKeysMap.lookup item.1).getD [], item.2)

theorem addAll_eq (missingCacheKeysMap : GoMap GoString)
    (order : List (GoString × List (CFGValue Pri))) :
    addAll cache missingCacheKeysMap order = cache.useAll (added missingCacheKeysMap order) := by
  simp [addAll, added, Lru.Cache.useAll, List.foldl_map, Lru.Cache.add]

end Eafcc.Go
