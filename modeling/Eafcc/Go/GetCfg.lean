import Eafcc.CfgCenter.Determinism
import Eafcc.Go.Cache
import Eafcc.Library.Run

namespace Eafcc.Go

open Eafcc.RuleEngine Eafcc.CfgCenter Eafcc.Ffi Transition

/-! # Queries through the cache -/

/-- The library's queries, by the text of a context and the flags. -/
abbrev Queries (Pri : Type) := GoString → ViewMode → Bool → List Str → Option (List (CFGResult Pri))

/-- The queries of one snapshot. `newWhoami` parses the text of a context, and
`rules` is the order of the iteration over the map of rules. -/
def snapshotQueries {Pri : Type} [LinearOrder Pri] (sort : SortUnstableBy Pri)
    (newWhoami : CText → MatchContext) (store : MemStorage Pri) (rules : List IdxRuleItem) : Queries Pri :=
  fun whoami viewMode needExplain keys =>
    Querier.get sort store rules (newWhoami (cString whoami)) keys viewMode needExplain

theorem snapshotQueries_perKey {Pri : Type} [LinearOrder Pri] (sort : SortUnstableBy Pri)
    (newWhoami : CText → MatchContext) (store : MemStorage Pri) (rules : List IdxRuleItem)
    (whoami : GoString) (viewMode : ViewMode) (needExplain : Bool) :
    AnswersPerKey (snapshotQueries sort newWhoami store rules whoami viewMode needExplain) :=
  get_answersPerKey sort store rules (newWhoami (cString whoami)) viewMode needExplain

structure Call where
  whoami : GoString
  keys : List GoString
  viewMode : ViewMode
  needExplain : Bool

def Call.request (call : Call) (key : GoString) : Request :=
  { whoami := call.whoami, key, viewMode := call.viewMode, needExplain := call.needExplain }

variable {Pri : Type}

abbrev Answer (Pri : Type) := Rust GoError (GoMap (List (CFGValue Pri)))

def Call.raw (queries : Queries Pri) (call : Call) (keys : List GoString) : Answer Pri :=
  getCfgRawNoCache (queries call.whoami call.viewMode call.needExplain) keys

def Call.cacheKey (digest : List UInt8 → List UInt8) (hashSalt : GoString) (call : Call)
    (key : GoString) : GoString :=
  (call.request key).cacheKey digest hashSalt

/-- A reading of the keys of a call from the cache. -/
def Call.batch (digest : List UInt8 → List UInt8) (hashSalt : GoString) (call : Call)
    (cache : CfgCache Pri) : Batch Pri :=
  batchReadFromCache cache (call.cacheKey digest hashSalt) call.keys

/-- The cache with the values that were loaded for the keys missing from it. -/
def Batch.add (batch : Batch Pri) (order : List (GoString × List (CFGValue Pri))) : CfgCache Pri :=
  addAll batch.cache batch.missingCacheKeysMap order

/-- One call by a client that is alone. -/
inductive GetsCfg (digest : List UInt8 → List UInt8) (hashSalt : GoString) (queries : Queries Pri) :
    CfgCache Pri → Call × Answer Pri → CfgCache Pri → Prop
  | cached {cache : CfgCache Pri} {call : Call} :
      (call.batch digest hashSalt cache).missingKeys = [] →
      GetsCfg digest hashSalt queries cache (call, .ok (call.batch digest hashSalt cache).values)
        (call.batch digest hashSalt cache).cache
  | failed {cache : CfgCache Pri} {call : Call} {failure : Failure GoError} :
      (call.batch digest hashSalt cache).missingKeys ≠ [] →
      call.raw queries (call.batch digest hashSalt cache).missingKeys = .error failure →
      GetsCfg digest hashSalt queries cache (call, .error failure) (call.batch digest hashSalt cache).cache
  | loaded {cache : CfgCache Pri} {call : Call} {t : GoMap (List (CFGValue Pri))}
      {order : List (GoString × List (CFGValue Pri))} :
      (call.batch digest hashSalt cache).missingKeys ≠ [] →
      call.raw queries (call.batch digest hashSalt cache).missingKeys = .ok t → Listing t order →
      GetsCfg digest hashSalt queries cache
        (call, .ok (call.batch digest hashSalt ((call.batch digest hashSalt cache).add order)).values)
        (call.batch digest hashSalt ((call.batch digest hashSalt cache).add order)).cache

/-! ## What the cache holds -/

def Request.values (queries : Queries Pri) (request : Request) : List (CFGValue Pri) :=
  valuesOf (queries request.whoami request.viewMode request.needExplain) request.key

/-- A cached value is the values of its request, repeated. -/
structure Holds (queries : Queries Pri) (request : Request) (v : List (CFGValue Pri)) : Prop where
  seen : cString request.key = request.key
  some_ : request.values queries ≠ []
  repeated : ∃ n, 0 < n ∧ v = (List.replicate n (request.values queries)).flatten

def Held (digest : List UInt8 → List UInt8) (hashSalt : GoString) (requests : Set Request)
    (queries : Queries Pri) (cache : CfgCache Pri) : Prop :=
  ∀ cacheKey v, cache.lookup cacheKey = some v → cacheKey = [] ∨
    ∃ request ∈ requests, cacheKey = request.cacheKey digest hashSalt ∧ Holds queries request v

section Raw

variable {queries : Queries Pri} {call : Call} {keys : List GoString} {key : GoString}
  {m : GoMap (List (CFGValue Pri))}

/-- How often the library is asked for a key. -/
def asked (keys : List GoString) (key : GoString) : Nat := (keys.map cString).count key

theorem entry_eq_none {values : List (CFGValue Pri)} : entry values = none ↔ values = [] := by
  unfold entry
  split <;> simp_all

theorem entry_of_ne_nil {values : List (CFGValue Pri)} (nonempty : values ≠ []) :
    entry values = some values := by
  unfold entry
  split <;> simp_all

theorem flatten_replicate_eq_nil {α : Type} {n : Nat} {values : List α} :
    (List.replicate n values).flatten = [] ↔ n = 0 ∨ values = [] := by
  cases n <;> simp

theorem length_flatten_replicate {α : Type} {n : Nat} {values : List α} :
    (List.replicate n values).flatten.length = n * values.length := by
  rw [List.length_flatten, List.map_replicate, List.sum_replicate, smul_eq_mul]

variable (perKey : ∀ whoami viewMode needExplain, AnswersPerKey (queries whoami viewMode needExplain))
include perKey

theorem raw_lookup (nonempty : keys ≠ []) (ok : call.raw queries keys = .ok m) (key : GoString) :
    m.lookup key =
      entry (List.replicate (asked keys key) ((call.request key).values queries)).flatten :=
  getCfgRawNoCache_lookup (perKey _ _ _) nonempty ok key

theorem raw_lookup_ne_none (nonempty : keys ≠ []) (ok : call.raw queries keys = .ok m) :
    m.lookup key ≠ none ↔ asked keys key ≠ 0 ∧ (call.request key).values queries ≠ [] := by
  rw [raw_lookup perKey nonempty ok, ne_eq, entry_eq_none, flatten_replicate_eq_nil, not_or]

end Raw

/-! ## One call -/

/-- What the call uses the cache with up to the second batch. -/
def Call.used (digest : List UInt8 → List UInt8) (hashSalt : GoString) (call : Call)
    (cache : CfgCache Pri) (order : List (GoString × List (CFGValue Pri))) :
    List (GoString × List (CFGValue Pri)) :=
  cache.hits (call.keys.map (call.cacheKey digest hashSalt)) ++
    added (call.batch digest hashSalt cache).missingCacheKeysMap order

theorem batch_add {digest : List UInt8 → List UInt8} {hashSalt : GoString} (call : Call)
    (cache : CfgCache Pri) (order : List (GoString × List (CFGValue Pri))) :
    (call.batch digest hashSalt cache).add order =
      cache.useAll (call.used digest hashSalt cache order) := by
  rw [Batch.add, addAll_eq, Call.used, Lru.Cache.useAll_append, ← Lru.Cache.readAll_eq, Call.batch,
    batchReadFromCache_cache]

/-- What the call finds under a key in the cache or else loads. -/
def Call.expected (digest : List UInt8 → List UInt8) (hashSalt : GoString) (call : Call)
    (cache : CfgCache Pri) (t : GoMap (List (CFGValue Pri))) (key : GoString) :
    Option (List (CFGValue Pri)) :=
  (cache.lookup (call.cacheKey digest hashSalt key)).or (t.lookup key)

/-- What is known of the cache when a call starts. -/
structure Ready (digest : List UInt8 → List UInt8) (hashSalt : GoString) (requests : Set Request)
    (queries : Queries Pri) (cache : CfgCache Pri) (call : Call) : Prop where
  noCollisions : NoCollisions digest hashSalt requests
  perKey : ∀ whoami viewMode needExplain, AnswersPerKey (queries whoami viewMode needExplain)
  held : Held digest hashSalt requests queries cache
  requested : ∀ key ∈ call.keys, call.request key ∈ requests

/-- The library takes one of the keys for another one of them, which is in the
cache. -/
def Call.Strays (digest : List UInt8 → List UInt8) (hashSalt : GoString) (call : Call)
    (cache : CfgCache Pri) : Prop :=
  ∃ key ∈ call.keys, cString key ≠ key ∧ cString key ∈ call.keys ∧
    ¬ Missing cache (call.cacheKey digest hashSalt) (cString key)

instance {digest : List UInt8 → List UInt8} {hashSalt : GoString} {call : Call} {cache : CfgCache Pri} :
    Decidable (call.Strays digest hashSalt cache) :=
  inferInstanceAs (Decidable (∃ key ∈ call.keys, _))

/-- The answer `m` of the library can be given through the cache: it has only keys
that were asked for, the cache holds their values repeated as often as now, and
has room for all of them. -/
structure Fits (digest : List UInt8 → List UInt8) (hashSalt : GoString) (queries : Queries Pri)
    (cache : CfgCache Pri) (call : Call) (m : GoMap (List (CFGValue Pri))) : Prop where
  own : ∀ key, m.lookup key ≠ none → key ∈ call.keys
  asOften : ∀ key ∈ call.keys, ∀ v, cache.lookup (call.cacheKey digest hashSalt key) = some v →
    v.length = asked call.keys key * ((call.request key).values queries).length
  room : cache.maxEntries = 0 ∨
    m.keys.card + (if call.Strays digest hashSalt cache then 1 else 0) ≤ cache.maxEntries

namespace Ready

variable {digest : List UInt8 → List UInt8} {hashSalt : GoString} {requests : Set Request}
  {queries : Queries Pri} {cache : CfgCache Pri} {call : Call} {key other : GoString}
  {v : List (CFGValue Pri)} {m t : GoMap (List (CFGValue Pri))}
  {order : List (GoString × List (CFGValue Pri))}
  (ready : Ready digest hashSalt requests queries cache call)
include ready

theorem cacheKey_injective (member : key ∈ call.keys) (member' : other ∈ call.keys)
    (same : call.cacheKey digest hashSalt key = call.cacheKey digest hashSalt other) : key = other :=
  congrArg Request.key (ready.noCollisions.cacheKey_injective (ready.requested key member)
    (ready.requested other member') same)

theorem hit (member : key ∈ call.keys)
    (found : cache.lookup (call.cacheKey digest hashSalt key) = some v) :
    Holds queries (call.request key) v := by
  rcases ready.held _ _ found with empty | ⟨request, known, same, holds⟩
  · exact absurd empty (ready.noCollisions.cacheKey_ne_nil _)
  · rwa [ready.noCollisions.cacheKey_injective (ready.requested key member) known same]

/-- The library is asked for a key that is missing as often without the cache. -/
theorem asked_missing (missing : key ∈ call.keys → Missing cache (call.cacheKey digest hashSalt) key) :
    asked (call.keys.filter fun key => Missing cache (call.cacheKey digest hashSalt) key) key =
      asked call.keys key := by
  simp only [asked, List.count_eq_countP, List.countP_map, List.countP_filter]
  refine List.countP_congr fun other member => ?_
  simp only [Function.comp_apply, Bool.and_eq_true, beq_iff_eq, decide_eq_true_eq, and_iff_left_iff_imp]
  intro same
  by_contra present
  obtain ⟨v, found⟩ := Option.ne_none_iff_exists'.mp present
  have seen : cString other = other := (ready.hit member found).seen
  rw [← same, seen] at missing
  exact present (missing member)

theorem hit_answered (member : key ∈ call.keys)
    (present : ¬ Missing cache (call.cacheKey digest hashSalt) key) :
    answered (queries call.whoami call.viewMode call.needExplain) (cString key) ≠ none := by
  obtain ⟨v, found⟩ := Option.ne_none_iff_exists'.mp present
  have holds := ready.hit member found
  intro unanswered
  have seen : cString key = key := holds.seen
  rw [seen] at unanswered
  exact holds.some_ (by simp [Request.values, valuesOf, Call.request, unanswered])

/-- The library's answer for a key that is in the cache. -/
theorem hit_answer (nonempty : call.keys ≠ []) (ok : call.raw queries call.keys = .ok m)
    (member : key ∈ call.keys) (found : cache.lookup (call.cacheKey digest hashSalt key) = some v) :
    m.lookup key = some v ↔ v.length = asked call.keys key * ((call.request key).values queries).length := by
  obtain ⟨seen, some_, n, positive, rfl⟩ := ready.hit member found
  have listed : key ∈ call.keys.map cString := List.mem_map.mpr ⟨key, member, seen⟩
  have times : 0 < asked call.keys key := List.count_pos_iff.mpr listed
  have size : 0 < ((call.request key).values queries).length := List.length_pos_of_ne_nil some_
  rw [raw_lookup ready.perKey nonempty ok, entry_of_ne_nil]
  · rw [Option.some.injEq, length_flatten_replicate]
    constructor
    · intro same
      have lengths := congrArg List.length same
      rw [length_flatten_replicate, length_flatten_replicate] at lengths
      exact lengths.symm
    · intro lengths
      rw [Nat.eq_of_mul_eq_mul_right size lengths]
  · rw [ne_eq, flatten_replicate_eq_nil, not_or]
    exact ⟨times.ne', some_⟩

theorem raw_missing (nonempty : call.keys ≠ []) :
    (∃ m, call.raw queries call.keys = .ok m) ↔
      ∀ key ∈ call.keys.filter fun key => Missing cache (call.cacheKey digest hashSalt) key,
        answered (queries call.whoami call.viewMode call.needExplain) (cString key) ≠ none := by
  have whole := fun m => getCfgRawNoCache_eq_ok (t := m)
    (ready.perKey call.whoami call.viewMode call.needExplain) nonempty
  constructor
  · intro returns key member
    obtain ⟨m, ok⟩ := returns
    exact ((whole m).mp ok).1 key (List.mem_of_mem_filter member)
  · intro present
    refine ⟨_, (whole _).mpr ⟨fun key member => ?_, rfl⟩⟩
    by_cases missing : Missing cache (call.cacheKey digest hashSalt) key
    · exact present key (List.mem_filter.mpr ⟨member, by simpa using missing⟩)
    · exact ready.hit_answered member missing

theorem raw_error (nonempty : call.keys ≠ []) {failure : Failure GoError}
    (some_ : (call.keys.filter fun key => Missing cache (call.cacheKey digest hashSalt) key) ≠ [])
    (fails : call.raw queries
      (call.keys.filter fun key => Missing cache (call.cacheKey digest hashSalt) key) = .error failure) :
    call.raw queries call.keys = .error failure := by
  obtain ⟨rfl, key, member, unanswered⟩ :=
    getCfgRawNoCache_error (ready.perKey call.whoami call.viewMode call.needExplain) some_ fails
  cases whole : call.raw queries call.keys with
  | ok m => exact absurd unanswered ((ready.raw_missing nonempty).mp ⟨m, whole⟩ key member)
  | error failure =>
      rw [(getCfgRawNoCache_error (ready.perKey _ _ _) nonempty whole).1]

/-- What is loaded for a missing key is what the library would answer. -/
theorem loaded_eq (nonempty : call.keys ≠ [])
    (loaded : call.raw queries
      (call.keys.filter fun key => Missing cache (call.cacheKey digest hashSalt) key) = .ok t)
    (ok : call.raw queries call.keys = .ok m) (member : key ∈ call.keys)
    (missing : Missing cache (call.cacheKey digest hashSalt) key) : t.lookup key = m.lookup key := by
  have some_ : (call.keys.filter fun key => Missing cache (call.cacheKey digest hashSalt) key) ≠ [] :=
    List.ne_nil_of_mem (List.mem_filter.mpr ⟨member, by simpa using missing⟩)
  rw [raw_lookup ready.perKey some_ loaded, raw_lookup ready.perKey nonempty ok,
    ready.asked_missing fun _ => missing]

/-- The entries that are added at a key of the call. -/
theorem mem_added (listing : Listing t order) (member : key ∈ call.keys) :
    (call.cacheKey digest hashSalt key, v) ∈
        added (call.batch digest hashSalt cache).missingCacheKeysMap order ↔
      Missing cache (call.cacheKey digest hashSalt) key ∧ t.lookup key = some v := by
  simp only [added, List.mem_map, Prod.mk.injEq, Prod.exists, Call.batch,
    batchReadFromCache_missingCacheKeysMap]
  constructor
  · intro item
    obtain ⟨loaded, value, listed, same, rfl⟩ := item
    split at same
    · rename_i missing
      rw [Option.getD_some] at same
      obtain rfl := ready.cacheKey_injective missing.1 member same
      exact ⟨missing.2, (listing.2 _ _).mp listed⟩
    · exact absurd same.symm (ready.noCollisions.cacheKey_ne_nil _)
  · intro both
    exact ⟨key, v, (listing.2 key v).mpr both.2, by simp [member, both.1], rfl⟩

/-- The entries that are used at a key of the call. -/
theorem mem_used (listing : Listing t order) (member : key ∈ call.keys) :
    (call.cacheKey digest hashSalt key, v) ∈ call.used digest hashSalt cache order ↔
      call.expected digest hashSalt cache t key = some v := by
  have hits : (call.cacheKey digest hashSalt key, v) ∈
      cache.hits (call.keys.map (call.cacheKey digest hashSalt)) ↔
        cache.lookup (call.cacheKey digest hashSalt key) = some v := by
    simp only [Lru.Cache.hits, List.mem_filterMap, Option.map_eq_some_iff, Prod.mk.injEq]
    constructor
    · intro used
      obtain ⟨-, -, found, looked, rfl, rfl⟩ := used
      exact looked
    · intro found
      exact ⟨_, List.mem_map_of_mem member, v, found, rfl, rfl⟩
  rw [Call.used, List.mem_append, hits, ready.mem_added listing member, Call.expected, Option.or_eq_some_iff]
  rfl

/-- What the second batch finds under a key was there or was loaded. -/
theorem expected_of_final (listing : Listing t order) (member : key ∈ call.keys)
    (found : (cache.useAll (call.used digest hashSalt cache order)).lookup
      (call.cacheKey digest hashSalt key) = some v) :
    call.expected digest hashSalt cache t key = some v := by
  have either := Lru.Cache.lookup_useAll found
  rw [Option.or_eq_some_iff] at either
  rcases either with used | ⟨-, earlier⟩
  · exact (ready.mem_used listing member).mp (List.mem_reverse.mp (Lru.mem_of_lookup used))
  · rw [Call.expected, earlier, Option.some_or]

/-- It is all still there if it fits. -/
theorem final_of_fits (listing : Listing t order) (member : key ∈ call.keys)
    (fits : cache.maxEntries = 0 ∨
      ((call.used digest hashSalt cache order).map Prod.fst).dedup.length ≤ cache.maxEntries) :
    (cache.useAll (call.used digest hashSalt cache order)).lookup (call.cacheKey digest hashSalt key) =
      call.expected digest hashSalt cache t key := by
  cases wanted : call.expected digest hashSalt cache t key with
  | none =>
      cases found : (cache.useAll (call.used digest hashSalt cache order)).lookup
          (call.cacheKey digest hashSalt key) with
      | none => rfl
      | some v =>
          rw [ready.expected_of_final listing member found] at wanted
          cases wanted
  | some v =>
      have used := (ready.mem_used listing member).mpr wanted
      rw [Lru.Cache.lookup_useAll_of_fits fits (List.mem_map_of_mem used)]
      refine Lru.lookup_eq_some_of_forall ?_ fun item listed same => ?_
      · rw [List.map_reverse, List.mem_reverse]
        exact List.mem_map_of_mem used
      · obtain ⟨cacheKey, value⟩ := item
        obtain rfl : cacheKey = call.cacheKey digest hashSalt key := same
        have other := (ready.mem_used listing member).mp (List.mem_reverse.mp listed)
        rw [wanted, Option.some.injEq] at other
        exact other.symm

/-- A key that the library was asked for is the one that it saw of some key. -/
theorem loaded_asked (loaded : call.raw queries
      (call.keys.filter fun key => Missing cache (call.cacheKey digest hashSalt) key) = .ok t)
    (found : t.lookup key = some v) : (call.request key).values queries ≠ [] ∧
      ∃ other ∈ call.keys, Missing cache (call.cacheKey digest hashSalt) other ∧ cString other = key := by
  have some_ : (call.keys.filter fun key => Missing cache (call.cacheKey digest hashSalt) key) ≠ [] := by
    intro empty
    rw [empty, Call.raw, getCfgRawNoCache, if_pos rfl] at loaded
    cases loaded
  have present : t.lookup key ≠ none := by simp [found]
  obtain ⟨times, values⟩ := (raw_lookup_ne_none ready.perKey some_ loaded).mp present
  refine ⟨values, ?_⟩
  have member := List.count_pos_iff.mp (Nat.pos_of_ne_zero times)
  obtain ⟨other, listed, same⟩ := List.mem_map.mp member
  obtain ⟨listed, missing⟩ := List.mem_filter.mp listed
  exact ⟨other, listed, by simpa using missing, same⟩

theorem answer_ne_none (nonempty : call.keys ≠ []) (ok : call.raw queries call.keys = .ok m)
    (member : other ∈ call.keys) (seen : cString other = key)
    (values : (call.request key).values queries ≠ []) : m.lookup key ≠ none := by
  refine (raw_lookup_ne_none ready.perKey nonempty ok).mpr ⟨?_, values⟩
  have listed : key ∈ call.keys.map cString := List.mem_map.mpr ⟨other, member, seen⟩
  exact (List.count_pos_iff.mpr listed).ne'

end Ready

theorem mem_keys {m : GoMap (List (CFGValue Pri))} {key : GoString} :
    key ∈ m.keys ↔ m.lookup key ≠ none := by
  rw [Finmap.mem_keys, ne_eq, Finmap.lookup_eq_none, not_not]

/-- The cache keys that a call needs room for. -/
def Call.places (digest : List UInt8 → List UInt8) (hashSalt : GoString) (call : Call)
    (cache : CfgCache Pri) (m : GoMap (List (CFGValue Pri))) : Finset GoString :=
  m.keys.image (call.cacheKey digest hashSalt) ∪
    if call.Strays digest hashSalt cache then {[]} else ∅

namespace Ready

variable {digest : List UInt8 → List UInt8} {hashSalt : GoString} {requests : Set Request}
  {queries : Queries Pri} {cache : CfgCache Pri} {call : Call} {key other : GoString}
  {v : List (CFGValue Pri)} {m t : GoMap (List (CFGValue Pri))}
  {order : List (GoString × List (CFGValue Pri))}
  (ready : Ready digest hashSalt requests queries cache call)
include ready

theorem places_card (own : ∀ key, m.lookup key ≠ none → key ∈ call.keys) :
    (call.places digest hashSalt cache m).card =
      m.keys.card + if call.Strays digest hashSalt cache then 1 else 0 := by
  have injective : Set.InjOn (call.cacheKey digest hashSalt) m.keys := by
    intro first listed second listed' same
    exact ready.cacheKey_injective (own first (mem_keys.mp listed)) (own second (mem_keys.mp listed')) same
  rw [Call.places, Finset.card_union_of_disjoint, Finset.card_image_of_injOn injective]
  · split <;> rfl
  · rw [Finset.disjoint_left]
    intro cacheKey image stray
    obtain ⟨key, -, rfl⟩ := Finset.mem_image.mp image
    split at stray
    · exact ready.noCollisions.cacheKey_ne_nil _ (Finset.mem_singleton.mp stray)
    · simp at stray

theorem used_places (nonempty : call.keys ≠ []) (listing : Listing t order)
    (loaded : call.raw queries
      (call.keys.filter fun key => Missing cache (call.cacheKey digest hashSalt) key) = .ok t)
    (ok : call.raw queries call.keys = .ok m)
    (own : ∀ key, m.lookup key ≠ none → key ∈ call.keys)
    (asOften : ∀ key ∈ call.keys, ∀ v,
      cache.lookup (call.cacheKey digest hashSalt key) = some v → m.lookup key = some v) :
    ∀ cacheKey ∈ (call.used digest hashSalt cache order).map Prod.fst,
      cacheKey ∈ call.places digest hashSalt cache m := by
  intro cacheKey member
  obtain ⟨item, used, rfl⟩ := List.mem_map.mp member
  rcases List.mem_append.mp used with hit | add
  · simp only [Lru.Cache.hits, List.mem_filterMap, List.mem_map, Option.map_eq_some_iff] at hit
    obtain ⟨-, ⟨key, listed, rfl⟩, v, found, rfl⟩ := hit
    refine Finset.mem_union_left _ (Finset.mem_image_of_mem _ (mem_keys.mpr ?_))
    rw [asOften key listed v found]
    simp
  · obtain ⟨⟨key, v⟩, listed, rfl⟩ := List.mem_map.mp add
    obtain ⟨values, other, asked, missing, seen⟩ := ready.loaded_asked loaded ((listing.2 key v).mp listed)
    have answer := ready.answer_ne_none nonempty ok asked seen values
    simp only [Call.batch, batchReadFromCache_missingCacheKeysMap]
    by_cases here : Missing cache (call.cacheKey digest hashSalt) key
    · rw [if_pos ⟨own key answer, here⟩]
      exact Finset.mem_union_left _ (Finset.mem_image_of_mem _ (mem_keys.mpr answer))
    · have stray : call.Strays digest hashSalt cache := by
        refine ⟨other, asked, fun same => here ?_, ?_⟩
        · rw [← seen, same]
          exact missing
        · rw [seen]
          exact ⟨own key answer, here⟩
      rw [if_neg fun both => here both.2, Call.places, if_pos stray]
      exact Finset.mem_union_right _ (Finset.mem_singleton_self _)

/-- Values that the library gives for another key than the missing one are added
under the empty string. -/
theorem stray_added (listing : Listing t order)
    (loaded : call.raw queries
      (call.keys.filter fun key => Missing cache (call.cacheKey digest hashSalt) key) = .ok t)
    (member : key ∈ call.keys) (missing : Missing cache (call.cacheKey digest hashSalt) key)
    (present : ¬ Missing cache (call.cacheKey digest hashSalt) (cString key))
    (values : (call.request (cString key)).values queries ≠ []) :
    ∃ w, ([], w) ∈ added (call.batch digest hashSalt cache).missingCacheKeysMap order := by
  have listed : key ∈ call.keys.filter fun key => Missing cache (call.cacheKey digest hashSalt) key :=
    List.mem_filter.mpr ⟨member, by simpa using missing⟩
  have times := List.count_pos_iff.mpr (List.mem_map_of_mem (f := cString) listed)
  have answer := (raw_lookup_ne_none ready.perKey (List.ne_nil_of_mem listed) loaded).mpr
    ⟨times.ne', values⟩
  obtain ⟨w, found⟩ := Option.ne_none_iff_exists'.mp answer
  refine ⟨w, List.mem_map.mpr ⟨(cString key, w), (listing.2 _ _).mpr found, ?_⟩⟩
  simp [Call.batch, batchReadFromCache_missingCacheKeysMap, present]

/-- What a call with the library's answer still finds in the end. -/
theorem places_present (nonempty : call.keys ≠ []) (listing : Listing t order)
    (loaded : call.raw queries
      (call.keys.filter fun key => Missing cache (call.cacheKey digest hashSalt) key) = .ok t)
    (ok : call.raw queries call.keys = .ok m)
    (present : ∀ key, m.lookup key ≠ none → key ∈ call.keys ∧
      (cache.useAll (call.used digest hashSalt cache order)).lookup
        (call.cacheKey digest hashSalt key) ≠ none) :
    ∀ cacheKey ∈ call.places digest hashSalt cache m,
      (cache.useAll (call.used digest hashSalt cache order)).lookup cacheKey ≠ none := by
  intro cacheKey member
  rcases Finset.mem_union.mp member with image | stray
  · obtain ⟨key, listed, rfl⟩ := Finset.mem_image.mp image
    exact (present key (mem_keys.mp listed)).2
  · split at stray
    · rename_i strays
      obtain rfl := Finset.mem_singleton.mp stray
      obtain ⟨key, listed, unseen, own, hit⟩ := strays
      obtain ⟨v, found⟩ := Option.ne_none_iff_exists'.mp hit
      have values := (ready.hit own found).some_
      have missing : Missing cache (call.cacheKey digest hashSalt) key := by
        by_contra there
        obtain ⟨v, found⟩ := Option.ne_none_iff_exists'.mp there
        exact unseen (ready.hit listed found).seen
      obtain ⟨w, added_⟩ := ready.stray_added listing loaded listed missing hit values
      have answer := ready.answer_ne_none nonempty ok listed rfl values
      have kept := (present _ answer).2
      rw [Call.used, Lru.Cache.useAll_append] at kept ⊢
      refine Lru.Cache.lookup_useAll_ne_none (fun again => ?_) kept (List.mem_map_of_mem added_)
      obtain ⟨⟨-, v⟩, listed', rfl⟩ := List.mem_map.mp again
      exact hit ((ready.mem_added listing own).mp listed').1
    · simp at stray

theorem fits_of_places {final : CfgCache Pri} (limit : final.maxEntries = cache.maxEntries)
    (own : ∀ key, m.lookup key ≠ none → key ∈ call.keys)
    (present : ∀ cacheKey ∈ call.places digest hashSalt cache m, final.lookup cacheKey ≠ none) :
    cache.maxEntries = 0 ∨
      m.keys.card + (if call.Strays digest hashSalt cache then 1 else 0) ≤ cache.maxEntries := by
  rw [← ready.places_card own, ← limit]
  have all := Lru.Cache.fits_of_present (call.places digest hashSalt cache m).toList fun cacheKey member =>
    present cacheKey (Finset.mem_toList.mp member)
  rwa [(Finset.nodup_toList _).dedup, Finset.length_toList] at all

/-- A call that finds all its keys. -/
theorem cached_iff (nonempty : call.keys ≠ []) (ok : call.raw queries call.keys = .ok m)
    (none_ : (call.batch digest hashSalt cache).missingKeys = []) :
    (call.batch digest hashSalt cache).values = m ↔ Fits digest hashSalt queries cache call m := by
  rw [Call.batch, batchReadFromCache_missingKeys, List.filter_eq_nil_iff] at none_
  have present : ∀ key ∈ call.keys, ¬ Missing cache (call.cacheKey digest hashSalt) key :=
    fun key member => by simpa using none_ key member
  have values : ∀ key, (call.batch digest hashSalt cache).values.lookup key =
      if key ∈ call.keys then cache.lookup (call.cacheKey digest hashSalt key) else none :=
    batchReadFromCache_values call.keys
  constructor
  · intro same
    subst same
    have own : ∀ key, (call.batch digest hashSalt cache).values.lookup key ≠ none → key ∈ call.keys := by
      intro key found
      by_contra absent
      exact found (by rw [values, if_neg absent])
    refine ⟨own, fun key member v found => ?_, ready.fits_of_places rfl own fun cacheKey member => ?_⟩
    · refine (ready.hit_answer nonempty ok member found).mp ?_
      rw [values, if_pos member, found]
    · have straight : ¬ call.Strays digest hashSalt cache := by
        intro strays
        obtain ⟨key, listed, unseen, -⟩ := strays
        obtain ⟨v, found⟩ := Option.ne_none_iff_exists'.mp (present key listed)
        exact unseen (ready.hit listed found).seen
      rw [Call.places, if_neg straight, Finset.union_empty] at member
      obtain ⟨key, listed, rfl⟩ := Finset.mem_image.mp member
      exact present key (own key (mem_keys.mp listed))
  · intro fits
    apply Finmap.ext_lookup
    intro key
    rw [values]
    by_cases member : key ∈ call.keys
    · obtain ⟨v, found⟩ := Option.ne_none_iff_exists'.mp (present key member)
      rw [if_pos member, found,
        (ready.hit_answer nonempty ok member found).mpr (fits.asOften key member v found)]
    · rw [if_neg member]
      by_contra answer
      exact member (fits.own key (Ne.symm answer))

/-- A call that loads the keys that it misses. -/
theorem loaded_iff (nonempty : call.keys ≠ []) (listing : Listing t order)
    (loaded : call.raw queries
      (call.keys.filter fun key => Missing cache (call.cacheKey digest hashSalt) key) = .ok t)
    (ok : call.raw queries call.keys = .ok m) :
    (call.batch digest hashSalt (cache.useAll (call.used digest hashSalt cache order))).values = m ↔
      Fits digest hashSalt queries cache call m := by
  have values : ∀ key, (call.batch digest hashSalt
      (cache.useAll (call.used digest hashSalt cache order))).values.lookup key =
        if key ∈ call.keys then (cache.useAll (call.used digest hashSalt cache order)).lookup
          (call.cacheKey digest hashSalt key) else none :=
    batchReadFromCache_values call.keys
  constructor
  · intro same
    subst same
    have present : ∀ key, (call.batch digest hashSalt
        (cache.useAll (call.used digest hashSalt cache order))).values.lookup key ≠ none →
          key ∈ call.keys ∧ (cache.useAll (call.used digest hashSalt cache order)).lookup
            (call.cacheKey digest hashSalt key) ≠ none := by
      intro key found
      rw [values] at found
      split at found
      · exact ⟨‹_›, found⟩
      · exact absurd rfl found
    have own := fun key found => (present key found).1
    refine ⟨own, fun key member v found => ?_, ?_⟩
    · have holds := ready.hit member found
      have answer := ready.answer_ne_none nonempty ok member holds.seen holds.some_
      obtain ⟨w, final⟩ := Option.ne_none_iff_exists'.mp (present key answer).2
      have expected := ready.expected_of_final listing member final
      rw [Call.expected, found, Option.some_or] at expected
      refine (ready.hit_answer nonempty ok member found).mp ?_
      rw [values, if_pos member, final, ← expected]
    · exact ready.fits_of_places Lru.Cache.useAll_maxEntries own
        (ready.places_present nonempty listing loaded ok present)
  · intro fits
    have room : cache.maxEntries = 0 ∨
        ((call.used digest hashSalt cache order).map Prod.fst).dedup.length ≤ cache.maxEntries := by
      refine fits.room.imp_right fun room => ?_
      rw [← ready.places_card fits.own] at room
      rw [← List.card_toFinset]
      refine le_trans (Finset.card_le_card fun cacheKey member => ?_) room
      exact ready.used_places nonempty listing loaded ok fits.own
        (fun key listed v found => (ready.hit_answer nonempty ok listed found).mpr
          (fits.asOften key listed v found)) cacheKey (List.mem_toFinset.mp member)
    apply Finmap.ext_lookup
    intro key
    rw [values]
    by_cases member : key ∈ call.keys
    · rw [if_pos member, ready.final_of_fits listing member room, Call.expected]
      cases found : cache.lookup (call.cacheKey digest hashSalt key) with
      | some v =>
          rw [Option.some_or, (ready.hit_answer nonempty ok member found).mpr (fits.asOften key member v found)]
      | none => rw [Option.none_or, ready.loaded_eq nonempty loaded ok member found]
    · rw [if_neg member]
      by_contra answer
      exact member (fits.own key (Ne.symm answer))

/-- A call gives the library's answer exactly if that fits. -/
theorem transparent_iff (nonempty : call.keys ≠ []) {answer : Answer Pri} {cache' : CfgCache Pri}
    (gets : GetsCfg digest hashSalt queries cache (call, answer) cache') :
    answer = call.raw queries call.keys ↔
      ∀ m, call.raw queries call.keys = .ok m → Fits digest hashSalt queries cache call m := by
  have missing : (call.batch digest hashSalt cache).missingKeys =
      call.keys.filter fun key => Missing cache (call.cacheKey digest hashSalt) key :=
    batchReadFromCache_missingKeys _
  have returns := ready.raw_missing nonempty
  cases gets with
  | cached none_ =>
      obtain ⟨m, ok⟩ := returns.mpr fun key member => by
        rw [← missing, none_] at member
        cases member
      simp only [ok, Except.ok.injEq, forall_eq']
      exact ready.cached_iff nonempty ok none_
  | failed some_ fails =>
      rw [missing] at some_ fails
      simp [ready.raw_error nonempty some_ fails]
  | loaded some_ loaded listing =>
      rw [missing] at some_ loaded
      obtain ⟨m, ok⟩ := returns.mpr
        ((getCfgRawNoCache_eq_ok (ready.perKey _ _ _) some_).mp loaded).1
      simp only [ok, Except.ok.injEq, forall_eq', batch_add]
      exact ready.loaded_iff nonempty listing loaded ok

/-- What is loaded for a key are its values, repeated. -/
theorem loaded_holds
    (loaded : call.raw queries
      (call.keys.filter fun key => Missing cache (call.cacheKey digest hashSalt) key) = .ok t)
    (found : t.lookup key = some v) : Holds queries (call.request key) v := by
  obtain ⟨values, other, member, missing, seen⟩ := ready.loaded_asked loaded found
  have some_ : (call.keys.filter fun key => Missing cache (call.cacheKey digest hashSalt) key) ≠ [] :=
    List.ne_nil_of_mem (List.mem_filter.mpr ⟨member, by simpa using missing⟩)
  rw [raw_lookup ready.perKey some_ loaded] at found
  unfold entry at found
  split at found
  · cases found
  · rename_i nonempty
    rw [Option.some.injEq] at found
    refine ⟨?_, values, _, Nat.pos_of_ne_zero fun zero => nonempty ?_, found.symm⟩
    · rw [← seen]
      exact cString_cString other
    · rw [zero]
      rfl

theorem held_step {answer : Answer Pri} {cache' : CfgCache Pri}
    (gets : GetsCfg digest hashSalt queries cache (call, answer) cache') :
    Held digest hashSalt requests queries cache' := by
  have read : ∀ (cache : CfgCache Pri) (cacheKey : GoString),
      (call.batch digest hashSalt cache).cache.lookup cacheKey = cache.lookup cacheKey := by
    intro cache cacheKey
    rw [Call.batch, batchReadFromCache_cache, Lru.Cache.readAll_lookup]
  intro cacheKey v found
  cases gets with
  | cached _ => exact ready.held cacheKey v (read cache cacheKey ▸ found)
  | failed _ _ => exact ready.held cacheKey v (read cache cacheKey ▸ found)
  | loaded some_ loaded listing =>
      rw [Call.batch, batchReadFromCache_missingKeys] at loaded
      rw [read, batch_add] at found
      rcases Option.or_eq_some_iff.mp (Lru.Cache.lookup_useAll found) with used | ⟨-, earlier⟩
      · rcases List.mem_append.mp (List.mem_reverse.mp (Lru.mem_of_lookup used)) with hit | add
        · simp only [Lru.Cache.hits, List.mem_filterMap, List.mem_map, Option.map_eq_some_iff,
            Prod.mk.injEq] at hit
          obtain ⟨_, -, w, looked, rfl, rfl⟩ := hit
          exact ready.held _ _ looked
        · obtain ⟨⟨key, w⟩, listed, same⟩ := List.mem_map.mp add
          simp only [Call.batch, batchReadFromCache_missingCacheKeysMap, Prod.mk.injEq] at same
          obtain ⟨rfl, rfl⟩ := same
          split
          · rename_i missing
            exact .inr ⟨_, ready.requested key missing.1, rfl,
              ready.loaded_holds loaded ((listing.2 _ _).mp listed)⟩
          · exact .inl rfl
      · exact ready.held cacheKey v earlier

end Ready

/-! ## All calls -/

/-- A call answers as the library does without a cache. -/
def Transparent (queries : Queries Pri) (taken : Taken (CfgCache Pri) (Call × Answer Pri)) : Prop :=
  taken.label.2 = taken.label.1.raw queries taken.label.1.keys

def FitsIn (digest : List UInt8 → List UInt8) (hashSalt : GoString) (queries : Queries Pri)
    (taken : Taken (CfgCache Pri) (Call × Answer Pri)) : Prop :=
  ∀ m, taken.label.1.raw queries taken.label.1.keys = .ok m →
    Fits digest hashSalt queries taken.before taken.label.1 m

def requestsOf (steps : List (Taken (CfgCache Pri) (Call × Answer Pri))) : Set Request :=
  {request | ∃ taken ∈ steps, ∃ key ∈ taken.label.1.keys, request = taken.label.1.request key}

/-- The calls of a client to one snapshot answer as without the cache exactly if
the library's answers fit. -/
theorem cache_transparent_iff [LinearOrder Pri] (sort : SortUnstableBy Pri)
    (newWhoami : CText → MatchContext) (store : MemStorage Pri) (rules : List IdxRuleItem)
    (digest : List UInt8 → List UInt8) (hashSalt : GoString) (maxEntries : Nat)
    (steps : List (Taken (CfgCache Pri) (Call × Answer Pri))) (cache : CfgCache Pri)
    (run : Run (GetsCfg digest hashSalt (snapshotQueries sort newWhoami store rules))
      (.new maxEntries) steps cache)
    (nonempty : ∀ taken ∈ steps, taken.label.1.keys ≠ [])
    (noCollisions : NoCollisions digest hashSalt (requestsOf steps)) :
    (∀ taken ∈ steps, Transparent (snapshotQueries sort newWhoami store rules) taken) ↔
      ∀ taken ∈ steps, FitsIn digest hashSalt (snapshotQueries sort newWhoami store rules) taken := by
  have ready : ∀ cache call, Held digest hashSalt (requestsOf steps)
      (snapshotQueries sort newWhoami store rules) cache →
      (∀ key ∈ call.keys, call.request key ∈ requestsOf steps) →
      Ready digest hashSalt (requestsOf steps) (snapshotQueries sort newWhoami store rules) cache call :=
    fun cache call held requested =>
      ⟨noCollisions, snapshotQueries_perKey sort newWhoami store rules, held, requested⟩
  have start : Held digest hashSalt (requestsOf steps) (snapshotQueries sort newWhoami store rules)
      (.new maxEntries) := by
    intro cacheKey v found
    cases found
  have assumed : ∀ taken ∈ steps, taken.label.1.keys ≠ [] ∧
      ∀ key ∈ taken.label.1.keys, taken.label.1.request key ∈ requestsOf steps :=
    fun taken member => ⟨nonempty taken member, fun key listed => ⟨taken, member, key, listed, rfl⟩⟩
  have whole := run.each_iff (H := fun taken => taken.label.1.keys ≠ [] ∧
      ∀ key ∈ taken.label.1.keys, taken.label.1.request key ∈ requestsOf steps)
    (P := fun _ => Transparent (snapshotQueries sort newWhoami store rules))
    (Q := fun _ => FitsIn digest hashSalt (snapshotQueries sort newWhoami store rules)) assumed start
    (fun _ cache label _ held gets known => (ready cache label.1 held known.2).held_step gets)
    fun _ cache label _ held gets known => (ready cache label.1 held known.2).transparent_iff known.1 gets
  rw [each_const, each_const] at whole
  exact whole.2

/-! ### One key, asked for once or twice -/

def sampleDigest (text : List UInt8) : List UInt8 := (text.reverse ++ List.replicate 32 0).take 32

def sampleCall (times : Nat) : Call :=
  { whoami := [119], keys := List.replicate times [107], viewMode := .overlaidView, needExplain := false }

def sampleValue : CFGValue Nat :=
  { key := [107], contextType := utf8Bytes "text".toList, value := utf8Bytes ['v'], reason := none }

def sampleAdded (times : Nat) : CfgCache Nat :=
  ((sampleCall times).batch sampleDigest [] (.new 0)).add [([107], List.replicate times sampleValue)]

def sampleQueries (index : CFGIndex Nat) : Queries Nat :=
  snapshotQueries (sortPreferring [sampleLinkItem ['s'], sampleLinkItem ['t']]) (fun _ => sampleContext)
    (storeOf sampleVersion index) [ruleEntry ['r'] sampleRule]

section Sample

variable {index : CFGIndex Nat}

theorem sample_answered (loaded : Loaded sampleCrates sampleRoot [] index) (whoami : GoString) :
    answered (sampleQueries index whoami .overlaidView false) [107] =
      some [⟨[107], utf8Bytes "text".toList, utf8Bytes ['v'], none⟩] := by
  have read : CText.toStr [107] = .ok ['k'] := toStr_utf8Bytes ['k']
  have shown : sampleQueries index whoami .overlaidView false [['k']] = some [⟨none, samplePair 'v'⟩] :=
    (sample_shows loaded sampleVersion).1
  have whole : getConfig (sampleQueries index whoami .overlaidView false) [[107]] =
      lift (convertGetCfgOutputValue [(⟨none, samplePair 'v'⟩ : CFGResult Nat)]) := by
    simp only [getConfig, convertGetCfgInputValue, List.mapM_cons, List.mapM_nil, read, lift, bind,
      Except.bind, pure, Except.pure, shown]
  rw [answered, whole]
  rfl

theorem sample_raw (loaded : Loaded sampleCrates sampleRoot [] index) {times : Nat} (some_ : times ≠ 0) :
    (sampleCall times).raw (sampleQueries index) (List.replicate times [107]) =
      .ok ((List.replicate times sampleValue).foldl appendValue ∅) := by
  have found := sample_answered loaded [119]
  have values : valuesOf (sampleQueries index [119] .overlaidView false) [107] = [sampleValue] := by
    rw [valuesOf, found]
    rfl
  have nonempty : List.replicate times ([107] : GoString) ≠ [] := by
    rwa [ne_eq, List.replicate_eq_nil_iff]
  refine (getCfgRawNoCache_eq_ok (snapshotQueries_perKey _ _ _ _ _ _ _) nonempty).mpr ⟨?_, ?_⟩
  · intro key member
    obtain ⟨-, rfl⟩ := List.mem_replicate.mp member
    exact fun absent => by cases found.symm.trans absent
  · have seen : cString [107] = [107] := rfl
    have each : ∀ times, (List.replicate times [107]).flatMap
        (valuesOf (sampleQueries index [119] .overlaidView false)) = List.replicate times sampleValue := by
      intro times
      induction times with
      | zero => rfl
      | succ times ih => rw [List.replicate_succ, List.flatMap_cons, values, ih]; rfl
    rw [List.map_replicate, seen]
    exact congrArg _ (each times).symm

theorem sample_listing {times : Nat} (some_ : times ≠ 0) :
    Listing ((List.replicate times sampleValue).foldl appendValue ∅)
      [([107], List.replicate times sampleValue)] := by
  refine ⟨by simp, fun key value => ?_⟩
  rw [lookup_appendAll, List.filter_replicate]
  have own : sampleValue.key = [107] := rfl
  by_cases same : key = [107]
  · subst same
    simp [own, entry, some_, eq_comm]
  · simp [own, entry, same, Ne.symm same]

theorem sample_noCollisions : NoCollisions sampleDigest [] {(sampleCall 1).request [107]} := by
  refine ⟨fun text => by simp [sampleDigest], ?_⟩
  intro first member second member' same
  simp only [hashed, Set.image_singleton, Set.mem_union, Set.mem_singleton_iff] at member member'
  rcases member with rfl | rfl <;> rcases member' with rfl | rfl
  · rfl
  · exact absurd same (by decide)
  · exact absurd same (by decide)
  · rfl

theorem sample_requests {steps : List (Taken (CfgCache Nat) (Call × Answer Nat))}
    (sampled : ∀ taken ∈ steps, ∃ times, taken.label.1 = sampleCall times) :
    requestsOf steps ⊆ {(sampleCall 1).request [107]} := by
  rintro - ⟨taken, member, key, listed, rfl⟩
  obtain ⟨times, call⟩ := sampled taken member
  rw [call] at listed ⊢
  obtain ⟨-, rfl⟩ := List.mem_replicate.mp listed
  rfl

/-- The first call of a client. -/
theorem sample_gets (loaded : Loaded sampleCrates sampleRoot [] index) {times : Nat} (some_ : times ≠ 0) :
    GetsCfg sampleDigest [] (sampleQueries index) (.new 0)
      (sampleCall times, .ok ((sampleCall times).batch sampleDigest [] (sampleAdded times)).values)
      ((sampleCall times).batch sampleDigest [] (sampleAdded times)).cache := by
  have missing : ((sampleCall times).batch sampleDigest [] (.new 0 : CfgCache Nat)).missingKeys =
      List.replicate times [107] := by
    rw [Call.batch, batchReadFromCache_missingKeys]
    exact List.filter_eq_self.mpr fun key _ => decide_eq_true rfl
  refine .loaded ?_ ?_ (sample_listing some_)
  · rwa [missing, ne_eq, List.replicate_eq_nil_iff]
  · rw [missing]
    exact sample_raw loaded some_

/-- A call that asks for the key once, and again. -/
theorem sample_getsTwice (loaded : Loaded sampleCrates sampleRoot [] index) : ∃ first second cache,
    Run (GetsCfg sampleDigest [] (sampleQueries index)) (.new 0) [first, second] cache ∧
    first.before = .new 0 ∧ second.before = ((sampleCall 1).batch sampleDigest [] (sampleAdded 1)).cache ∧
    ∀ taken ∈ [first, second], taken.label.1 = sampleCall 1 := by
  have start : Run (GetsCfg sampleDigest [] (sampleQueries index)) (.new 0) [] (.new 0) := .nil
  have again : GetsCfg sampleDigest [] (sampleQueries index)
      ((sampleCall 1).batch sampleDigest [] (sampleAdded 1)).cache
      (sampleCall 1, .ok ((sampleCall 1).batch sampleDigest []
        ((sampleCall 1).batch sampleDigest [] (sampleAdded 1)).cache).values) _ := .cached rfl
  refine ⟨_, _, _, (start.snoc (sample_gets loaded one_ne_zero)).snoc again, rfl, rfl, fun taken member => ?_⟩
  rcases List.mem_pair.mp member with rfl | rfl
  · rfl
  · rfl

theorem sample_values (loaded : Loaded sampleCrates sampleRoot [] index) :
    ((sampleCall 1).request [107]).values (sampleQueries index) = [sampleValue] := by
  have found : answered (sampleQueries index [119] .overlaidView false) [107] = _ := sample_answered loaded [119]
  exact congrArg (fun values : Option (List (ConfigValue Nat)) => (values.getD []).map convertConfigValue) found

/-- The second call finds the key in the cache. -/
theorem cache_transparent_iff_sample : ∃ index, Loaded sampleCrates sampleRoot [] index ∧
    ∃ first second cache, Run (GetsCfg sampleDigest [] (sampleQueries index)) (.new 0) [first, second] cache ∧
      (second.label.1.batch sampleDigest [] second.before).missingKeys = [] ∧
      ∀ taken ∈ [first, second], Transparent (sampleQueries index) taken := by
  obtain ⟨hash, serves⟩ := sample_serves
  obtain ⟨fuel, index, loads⟩ := sample_loads serves
  have loaded := load_loaded serves loads
  obtain ⟨first, second, cache, run, before, before', calls⟩ := sample_getsTwice loaded
  have nonempty : ∀ taken ∈ [first, second], taken.label.1.keys ≠ [] := by
    intro taken member
    rw [calls taken member]
    exact List.cons_ne_nil _ _
  have whole := cache_transparent_iff _ _ _ _ sampleDigest [] 0 _ _ run nonempty
    (sample_noCollisions.mono (sample_requests fun taken member => ⟨1, calls taken member⟩))
  refine ⟨index, loaded, first, second, cache, run, ?_, whole.mpr fun taken member m ok =>
    ⟨fun key found => ?_, fun key listed v found => ?_, ?_⟩⟩
  · rw [calls second (by simp), before']
    rfl
  · have asked_ :=
      (raw_lookup_ne_none (snapshotQueries_perKey _ _ _ _) (nonempty taken member) ok).mp found
    rw [calls taken member] at asked_ ⊢
    exact List.count_pos_iff.mp (Nat.pos_of_ne_zero asked_.1)
  · rw [calls taken member] at listed found ⊢
    obtain rfl := List.mem_singleton.mp listed
    change v.length = asked _ _ * (((sampleCall 1).request [107]).values (sampleQueries index)).length
    rw [sample_values loaded]
    rcases List.mem_pair.mp member with rfl | rfl
    · rw [before] at found
      cases found
    · rw [before'] at found
      cases found
      rfl
  · rcases List.mem_pair.mp member with rfl | rfl
    · exact .inl (congrArg Lru.Cache.maxEntries before)
    · exact .inl (congrArg Lru.Cache.maxEntries before')

/-- A key that was asked for twice is answered twice when it is asked for once. -/
theorem repeated_key_not_transparent : ∃ index, Loaded sampleCrates sampleRoot [] index ∧
    ∃ steps cache, Run (GetsCfg sampleDigest [] (sampleQueries index)) (.new 0) steps cache ∧
      steps.map (fun taken => taken.label.1) = [sampleCall 2, sampleCall 1] ∧
      NoCollisions sampleDigest [] (requestsOf steps) ∧
      ¬ ∀ taken ∈ steps, Transparent (sampleQueries index) taken := by
  obtain ⟨hash, serves⟩ := sample_serves
  obtain ⟨fuel, index, loads⟩ := sample_loads serves
  have loaded := load_loaded serves loads
  have start : Run (GetsCfg sampleDigest [] (sampleQueries index)) (.new 0) [] (.new 0) := .nil
  have again : GetsCfg sampleDigest [] (sampleQueries index)
      ((sampleCall 2).batch sampleDigest [] (sampleAdded 2)).cache
      (sampleCall 1, .ok ((sampleCall 1).batch sampleDigest []
        ((sampleCall 2).batch sampleDigest [] (sampleAdded 2)).cache).values) _ := .cached rfl
  have run := (start.snoc (sample_gets loaded two_ne_zero)).snoc again
  refine ⟨index, loaded, _, _, run, rfl, sample_noCollisions.mono (sample_requests ?_), ?_⟩
  · intro taken member
    simp only [List.nil_append, List.cons_append, List.mem_cons, List.not_mem_nil, or_false] at member
    rcases member with rfl | rfl
    · exact ⟨2, rfl⟩
    · exact ⟨1, rfl⟩
  · intro transparent
    have last := transparent _ (List.mem_append_right _ (List.mem_singleton_self _))
    have raw := sample_raw loaded one_ne_zero
    have lookups := congrArg (Finmap.lookup [107]) (Except.ok.inj (last.trans raw))
    rw [lookup_appendAll] at lookups
    have lengths := congrArg (Option.map List.length) lookups
    cases lengths

end Sample

end Eafcc.Go
