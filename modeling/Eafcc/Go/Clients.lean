import Eafcc.Go.GetCfg

namespace Eafcc.Go

open Eafcc.RuleEngine Eafcc.CfgCenter Eafcc.Ffi Transition

/-! # Clients of a namespace that is updated

The critical sections of the namespace's lock, the raw queries and the swap of the
snapshot are the steps.  The snapshots are numbered in the order in which they are
installed.
-/

variable {Pri : Type}

/-- Where a call stands between two of its critical sections. -/
inductive Client (Pri : Type) where
  | idle
  | missing (call : Call) (batch : Batch Pri)
  | loaded (call : Call) (batch : Batch Pri) (t : GoMap (List (CFGValue Pri))) (version : Nat)
  | added (call : Call)

/-- In `callback` the callback of the namespace holds the lock, in `replaced` it has
returned and the library still answers from the old snapshot. -/
inductive Updater where
  | idle
  | callback
  | replaced
deriving Repr, DecidableEq

/-- `readFrom` is not part of the program: it is the snapshot from which the values
under a cache key were read. -/
structure NamespaceState (Pri : Type) where
  cache : CfgCache Pri
  readFrom : GoString → Nat
  installed : Nat
  updater : Updater
  clients : Nat → Client Pri

def NamespaceState.start (cacheSize : Nat) : NamespaceState Pri :=
  { cache := .new cacheSize, readFrom := fun _ => 0, installed := 0, updater := .idle,
    clients := fun _ => .idle }

theorem start_lookup {cacheSize : Nat} {cacheKey : GoString} :
    (NamespaceState.start cacheSize : NamespaceState Pri).cache.lookup cacheKey = none :=
  rfl

inductive ClientAction (Pri : Type) where
  | read (client : Nat) (call : Call)
  | load (client : Nat)
  | add (client : Nat)
  | returns (client : Nat) (call : Call) (answer : Answer Pri)
  | replace
  | release
  | swap

/-- The snapshots of the values after an addition. -/
def readFromAfter (readFrom : GoString → Nat) (items : List (GoString × List (CFGValue Pri)))
    (version : Nat) (cacheKey : GoString) : Nat :=
  if cacheKey ∈ items.map Prod.fst then version else readFrom cacheKey

/-- A step of a client or of the updater. -/
inductive Step (digest : List UInt8 → List UInt8) (hashSalt : GoString) (cacheSize : Nat)
    (snapshots : Nat → Queries Pri) :
    NamespaceState Pri → ClientAction Pri → NamespaceState Pri → Prop
  | cached {s : NamespaceState Pri} {client : Nat} {call : Call} :
      s.clients client = .idle → s.updater ≠ .callback →
      (call.batch digest hashSalt s.cache).missingKeys = [] →
      Step digest hashSalt cacheSize snapshots s
        (.returns client call (.ok (call.batch digest hashSalt s.cache).values))
        { s with cache := (call.batch digest hashSalt s.cache).cache }
  | read {s : NamespaceState Pri} {client : Nat} {call : Call} :
      s.clients client = .idle → s.updater ≠ .callback →
      (call.batch digest hashSalt s.cache).missingKeys ≠ [] →
      Step digest hashSalt cacheSize snapshots s (.read client call)
        { s with
          cache := (call.batch digest hashSalt s.cache).cache
          clients := Function.update s.clients client
            (.missing call (call.batch digest hashSalt s.cache)) }
  | load {s : NamespaceState Pri} {client : Nat} {call : Call} {batch : Batch Pri}
      {t : GoMap (List (CFGValue Pri))} :
      s.clients client = .missing call batch →
      call.raw (snapshots s.installed) batch.missingKeys = .ok t →
      Step digest hashSalt cacheSize snapshots s (.load client)
        { s with clients := Function.update s.clients client (.loaded call batch t s.installed) }
  | loadFails {s : NamespaceState Pri} {client : Nat} {call : Call} {batch : Batch Pri}
      {failure : Failure GoError} :
      s.clients client = .missing call batch →
      call.raw (snapshots s.installed) batch.missingKeys = .error failure →
      Step digest hashSalt cacheSize snapshots s (.returns client call (.error failure))
        { s with clients := Function.update s.clients client .idle }
  | add {s : NamespaceState Pri} {client : Nat} {call : Call} {batch : Batch Pri}
      {t : GoMap (List (CFGValue Pri))} {version : Nat}
      {order : List (GoString × List (CFGValue Pri))} :
      s.clients client = .loaded call batch t version → s.updater ≠ .callback → Listing t order →
      Step digest hashSalt cacheSize snapshots s (.add client)
        { s with
          cache := addAll s.cache batch.missingCacheKeysMap order
          readFrom := readFromAfter s.readFrom (added batch.missingCacheKeysMap order) version
          clients := Function.update s.clients client (.added call) }
  | readAgain {s : NamespaceState Pri} {client : Nat} {call : Call} :
      s.clients client = .added call → s.updater ≠ .callback →
      Step digest hashSalt cacheSize snapshots s
        (.returns client call (.ok (call.batch digest hashSalt s.cache).values))
        { s with
          cache := (call.batch digest hashSalt s.cache).cache
          clients := Function.update s.clients client .idle }
  | replace {s : NamespaceState Pri} :
      s.updater = .idle →
      Step digest hashSalt cacheSize snapshots s .replace
        { s with cache := .new cacheSize, updater := .callback }
  | release {s : NamespaceState Pri} :
      s.updater = .callback →
      Step digest hashSalt cacheSize snapshots s .release { s with updater := .replaced }
  | swap {s : NamespaceState Pri} :
      s.updater = .replaced →
      Step digest hashSalt cacheSize snapshots s .swap
        { s with installed := s.installed + 1, updater := .idle }

/-! ## What the cache finds after a step -/

theorem batch_lookup {digest : List UInt8 → List UInt8} {hashSalt : GoString} (call : Call)
    (cache : CfgCache Pri) (cacheKey : GoString) :
    (call.batch digest hashSalt cache).cache.lookup cacheKey = cache.lookup cacheKey := by
  rw [Call.batch, batchReadFromCache_cache, Lru.Cache.readAll_lookup]

theorem batch_values {digest : List UInt8 → List UInt8} {hashSalt : GoString} {call : Call}
    {cache : CfgCache Pri} {key : GoString} {v : List (CFGValue Pri)}
    (found : (call.batch digest hashSalt cache).values.lookup key = some v) :
    cache.lookup (call.cacheKey digest hashSalt key) = some v := by
  rw [Call.batch, batchReadFromCache_values] at found
  split at found
  · exact found
  · cases found

/-- What is found after an addition was added or found before. -/
theorem lookup_addAll {cache : CfgCache Pri} {missingCacheKeysMap : GoMap GoString}
    {order : List (GoString × List (CFGValue Pri))} {cacheKey : GoString} {v : List (CFGValue Pri)}
    (found : (addAll cache missingCacheKeysMap order).lookup cacheKey = some v) :
    (cacheKey, v) ∈ added missingCacheKeysMap order ∨
      cacheKey ∉ (added missingCacheKeysMap order).map Prod.fst ∧ cache.lookup cacheKey = some v := by
  rw [addAll_eq] at found
  rcases Option.or_eq_some_iff.mp (Lru.Cache.lookup_useAll found) with used | ⟨absent, earlier⟩
  · exact .inl (List.mem_reverse.mp (Lru.mem_of_lookup used))
  · rw [Lru.lookup_eq_none, List.map_reverse, List.mem_reverse] at absent
    exact .inr ⟨absent, earlier⟩

/-- An addition is made for a value that was loaded. -/
theorem Listing.answer {t : GoMap (List (CFGValue Pri))} {missingCacheKeysMap : GoMap GoString}
    {order : List (GoString × List (CFGValue Pri))} {item : GoString × List (CFGValue Pri)}
    (listing : Listing t order) (member : item ∈ added missingCacheKeysMap order) :
    ∃ key, t.lookup key ≠ none := by
  obtain ⟨⟨key, value⟩, listed, -⟩ := List.mem_map.mp member
  exact ⟨key, by simp [(listing.2 key value).mp listed]⟩

theorem Listing.ne_empty {t : GoMap (List (CFGValue Pri))} {missingCacheKeysMap : GoMap GoString}
    {order : List (GoString × List (CFGValue Pri))} {item : GoString × List (CFGValue Pri)}
    (listing : Listing t order) (member : item ∈ added missingCacheKeysMap order) : t ≠ ∅ := by
  obtain ⟨key, answer⟩ := listing.answer member
  intro empty
  rw [empty] at answer
  exact answer (Finmap.lookup_empty key)

section Steps

variable {digest : List UInt8 → List UInt8} {hashSalt : GoString} {cacheSize : Nat}
  {snapshots : Nat → Queries Pri} {s next : NamespaceState Pri} {action : ClientAction Pri}
  {cacheKey : GoString} {v : List (CFGValue Pri)}

/-- What the cache finds was there before or is added by the step. -/
theorem step_entry (taken : Step digest hashSalt cacheSize snapshots s action next)
    (found : next.cache.lookup cacheKey = some v) :
    (s.cache.lookup cacheKey = some v ∧ next.readFrom cacheKey = s.readFrom cacheKey) ∨
    ∃ client call batch t version order, action = .add client ∧
      s.clients client = .loaded call batch t version ∧ Listing t order ∧
      (cacheKey, v) ∈ added batch.missingCacheKeysMap order ∧ next.readFrom cacheKey = version := by
  cases taken with
  | cached _ _ _ => exact .inl ⟨by rwa [batch_lookup] at found, rfl⟩
  | read _ _ _ => exact .inl ⟨by rwa [batch_lookup] at found, rfl⟩
  | load _ _ => exact .inl ⟨found, rfl⟩
  | loadFails _ _ => exact .inl ⟨found, rfl⟩
  | @add client call batch t version order loaded _ listing =>
      rcases lookup_addAll found with new | ⟨absent, earlier⟩
      · have tagged := List.mem_map_of_mem (f := Prod.fst) new
        exact .inr ⟨client, call, batch, t, version, order, rfl, loaded, listing, new, if_pos tagged⟩
      · exact .inl ⟨earlier, if_neg absent⟩
  | readAgain _ _ => exact .inl ⟨by rwa [batch_lookup] at found, rfl⟩
  | replace _ => cases found
  | release _ => exact .inl ⟨found, rfl⟩
  | swap _ => exact .inl ⟨found, rfl⟩

/-- The snapshot and the updater stay as they are, or the cache is empty, or the
updater is at work and the cache stays as it is. -/
theorem step_updater (taken : Step digest hashSalt cacheSize snapshots s action next) :
    (next.installed = s.installed ∧ next.updater = s.updater) ∨
    ((∀ cacheKey, next.cache.lookup cacheKey = none) ∧ next.updater ≠ .idle) ∨
    (next.cache = s.cache ∧ s.updater ≠ .idle) := by
  cases taken with
  | replace _ => exact .inr (.inl ⟨fun _ => rfl, by simp⟩)
  | release calling => exact .inr (.inr ⟨rfl, by simp [calling]⟩)
  | swap replaced => exact .inr (.inr ⟨rfl, by simp [replaced]⟩)
  | _ => exact .inl ⟨rfl, rfl⟩

/-! ## Where the values come from -/

/-- The local variables of a call are what it read and what it loaded. -/
def Client.Sound (digest : List UInt8 → List UInt8) (hashSalt : GoString)
    (snapshots : Nat → Queries Pri) (requests : Set Request) : Client Pri → Prop
  | .idle => True
  | .missing call batch =>
      (∃ cache, batch = call.batch digest hashSalt cache) ∧ ∀ key ∈ call.keys, call.request key ∈ requests
  | .loaded call batch t version =>
      ((∃ cache, batch = call.batch digest hashSalt cache) ∧
        ∀ key ∈ call.keys, call.request key ∈ requests) ∧
      call.raw (snapshots version) batch.missingKeys = .ok t
  | .added _ => True

/-- The requests of a call that goes on to the library are among some requests. -/
def Asks (requests : Set Request) (taken : Taken (NamespaceState Pri) (ClientAction Pri)) : Prop :=
  ∀ client call, taken.label = .read client call → ∀ key ∈ call.keys, call.request key ∈ requests

theorem sound_step {requests : Set Request}
    (sound : ∀ client, (s.clients client).Sound digest hashSalt snapshots requests)
    (taken : Step digest hashSalt cacheSize snapshots s action next)
    (asks : Asks requests ⟨s, action, next⟩) :
    ∀ client, (next.clients client).Sound digest hashSalt snapshots requests := by
  cases taken with
  | read _ _ _ =>
      rw [Function.forall_update_iff]
      exact ⟨⟨⟨_, rfl⟩, asks _ _ rfl⟩, fun client _ => sound client⟩
  | @load client _ _ _ missing loaded =>
      have before := sound client
      rw [missing] at before
      rw [Function.forall_update_iff]
      exact ⟨⟨before, loaded⟩, fun client _ => sound client⟩
  | loadFails _ _ =>
      rw [Function.forall_update_iff]
      exact ⟨trivial, fun client _ => sound client⟩
  | add _ _ _ =>
      rw [Function.forall_update_iff]
      exact ⟨trivial, fun client _ => sound client⟩
  | readAgain _ _ =>
      rw [Function.forall_update_iff]
      exact ⟨trivial, fun client _ => sound client⟩
  | _ => exact sound

/-- The values were read from a snapshot by a call that keeps them under a cache
key. -/
def ReadFrom (digest : List UInt8 → List UInt8) (hashSalt : GoString) (queries : Queries Pri)
    (cacheKey : GoString) (v : List (CFGValue Pri)) : Prop :=
  ∃ (call : Call) (keys : List GoString) (t : GoMap (List (CFGValue Pri))) (key : GoString),
    call.raw queries keys = .ok t ∧ t.lookup key = some v ∧
    (cacheKey = call.cacheKey digest hashSalt key ∨ cacheKey = [])

/-- An addition keeps values under the cache key of a key that was missing or under
the empty string. -/
theorem mem_added_batch {call : Call} {cache : CfgCache Pri} {t : GoMap (List (CFGValue Pri))}
    {order : List (GoString × List (CFGValue Pri))} (listing : Listing t order)
    (member : (cacheKey, v) ∈ added (call.batch digest hashSalt cache).missingCacheKeysMap order) :
    ∃ key, t.lookup key = some v ∧
      (key ∈ (call.batch digest hashSalt cache).missingKeys ∧
          cacheKey = call.cacheKey digest hashSalt key ∨
        key ∉ (call.batch digest hashSalt cache).missingKeys ∧ cacheKey = []) := by
  obtain ⟨⟨key, value⟩, listed, same⟩ := List.mem_map.mp member
  simp only [Call.batch, batchReadFromCache_missingCacheKeysMap, Prod.mk.injEq] at same
  obtain ⟨rfl, rfl⟩ := same
  refine ⟨key, (listing.2 key value).mp listed, ?_⟩
  simp only [Call.batch, batchReadFromCache_missingKeys, List.mem_filter, decide_eq_true_eq]
  split
  · exact .inl ⟨‹_›, rfl⟩
  · exact .inr ⟨‹_›, rfl⟩

theorem readFrom_step
    (sound : ∀ client, (s.clients client).Sound digest hashSalt snapshots Set.univ)
    (sourced : ∀ cacheKey v, s.cache.lookup cacheKey = some v →
      ReadFrom digest hashSalt (snapshots (s.readFrom cacheKey)) cacheKey v)
    (taken : Step digest hashSalt cacheSize snapshots s action next) :
    ∀ cacheKey v, next.cache.lookup cacheKey = some v →
      ReadFrom digest hashSalt (snapshots (next.readFrom cacheKey)) cacheKey v := by
  intro cacheKey v found
  rcases step_entry taken found with ⟨earlier, same⟩ |
    ⟨client, call, batch, t, version, order, -, loaded, listing, new, same⟩
  · rw [same]
    exact sourced cacheKey v earlier
  · have local_ := sound client
    rw [loaded] at local_
    obtain ⟨⟨⟨cache, rfl⟩, -⟩, raw⟩ := local_
    obtain ⟨key, answer, place⟩ := mem_added_batch listing new
    rw [same]
    exact ⟨call, _, t, key, raw, answer, place.imp And.right And.right⟩

/-! ## One call, one snapshot -/

/-- Whatever the cache holds when values are added to it was read from the same
snapshot as these values. -/
def AddsAlike (taken : Taken (NamespaceState Pri) (ClientAction Pri)) : Prop :=
  ∀ client call batch t version, taken.label = .add client →
    taken.before.clients client = .loaded call batch t version → t ≠ ∅ →
    ∀ cacheKey, taken.before.cache.lookup cacheKey ≠ none → taken.before.readFrom cacheKey = version

/-- The values that a call returns were read from one snapshot. -/
def OneVersion (digest : List UInt8 → List UInt8) (hashSalt : GoString)
    (snapshots : Nat → Queries Pri) (taken : Taken (NamespaceState Pri) (ClientAction Pri)) : Prop :=
  ∀ client call values, taken.label = .returns client call (.ok values) →
    ∃ version, ∀ key v, values.lookup key = some v →
      taken.before.readFrom (call.cacheKey digest hashSalt key) = version ∧
      ReadFrom digest hashSalt (snapshots version) (call.cacheKey digest hashSalt key) v

/-- All that the cache finds was read from one snapshot. -/
def Uniform (s : NamespaceState Pri) : Prop :=
  ∃ version, ∀ cacheKey, s.cache.lookup cacheKey ≠ none → s.readFrom cacheKey = version

theorem uniform_step (uniform : Uniform s)
    (taken : Step digest hashSalt cacheSize snapshots s action next)
    (alike : AddsAlike ⟨s, action, next⟩) : Uniform next := by
  obtain ⟨version, same⟩ := uniform
  by_cases adds : ∃ client call batch t version', action = .add client ∧
      s.clients client = .loaded call batch t version' ∧ t ≠ ∅
  · obtain ⟨client, call, batch, t, version', label, loaded, some_⟩ := adds
    refine ⟨version', fun cacheKey present => ?_⟩
    obtain ⟨v, found⟩ := Option.ne_none_iff_exists'.mp present
    rcases step_entry taken found with ⟨earlier, kept⟩ |
      ⟨other, _, _, _, _, _, label', loaded', -, -, tagged⟩
    · rw [kept]
      exact alike client call batch t version' label loaded some_ cacheKey (by simp [earlier])
    · cases label.symm.trans label'
      cases loaded.symm.trans loaded'
      exact tagged
  · refine ⟨version, fun cacheKey present => ?_⟩
    obtain ⟨v, found⟩ := Option.ne_none_iff_exists'.mp present
    rcases step_entry taken found with ⟨earlier, kept⟩ |
      ⟨client, call, batch, t, version', order, label, loaded, listing, new, -⟩
    · rw [kept]
      exact same cacheKey (by simp [earlier])
    · exact absurd ⟨client, call, batch, t, version', label, loaded, listing.ne_empty new⟩ adds

theorem uniform_returns (uniform : Uniform s)
    (sourced : ∀ cacheKey v, s.cache.lookup cacheKey = some v →
      ReadFrom digest hashSalt (snapshots (s.readFrom cacheKey)) cacheKey v)
    (taken : Step digest hashSalt cacheSize snapshots s action next) :
    OneVersion digest hashSalt snapshots ⟨s, action, next⟩ := by
  obtain ⟨version, same⟩ := uniform
  intro client call values label
  refine ⟨version, fun key v found => ?_⟩
  have cached : s.cache.lookup (call.cacheKey digest hashSalt key) = some v := by
    cases taken with
    | cached _ _ _ =>
        cases label
        exact batch_values found
    | readAgain _ _ =>
        cases label
        exact batch_values found
    | _ => cases label
  have tagged := same _ (ne_of_eq_of_ne cached (by simp))
  have source := sourced _ v cached
  rw [tagged] at source
  exact ⟨tagged, source⟩

/-! ## The snapshot that is installed -/

/-- The values that the raw query for one key gives. -/
def Request.Answers (queries : Queries Pri) (request : Request) (v : List (CFGValue Pri)) : Prop :=
  ∃ m, getCfgRawNoCache (queries request.whoami request.viewMode request.needExplain) [request.key] =
    .ok m ∧ m.lookup request.key = some v

theorem raw_single {queries : Queries Pri} {call : Call} {keys : List GoString} {key : GoString}
    {t : GoMap (List (CFGValue Pri))}
    (perKey : ∀ whoami viewMode needExplain, AnswersPerKey (queries whoami viewMode needExplain))
    (loaded : call.raw queries keys = .ok t) (once : asked keys key = 1)
    (found : t.lookup key = some v) : (call.request key).Answers queries v := by
  have nonempty : keys ≠ [] := by
    intro empty
    rw [empty] at once
    cases once
  have listed : key ∈ keys.map cString := by
    refine List.count_pos_iff.mp ?_
    rw [← asked, once]
    exact Nat.one_pos
  obtain ⟨other, member, seen⟩ := List.mem_map.mp listed
  have whole : cString key = key := by
    rw [← seen]
    exact cString_cString other
  have answers : ∀ single ∈ [key],
      answered (queries call.whoami call.viewMode call.needExplain) (cString single) ≠ none := by
    intro single same
    rw [List.mem_singleton.mp same, whole, ← seen]
    exact ((getCfgRawNoCache_eq_ok (perKey _ _ _) nonempty).mp loaded).1 other member
  have single := (getCfgRawNoCache_eq_ok (perKey _ _ _) (List.cons_ne_nil key [])).mpr ⟨answers, rfl⟩
  refine ⟨_, single, ?_⟩
  rw [raw_lookup perKey nonempty loaded, once] at found
  have once : ([key].map cString).count (call.request key).key = 1 := by
    rw [List.map_singleton, whole]
    exact List.count_singleton_self
  rw [getCfgRawNoCache_lookup (perKey _ _ _) (List.cons_ne_nil key []) single, once]
  exact found

/-- Values are added only while the snapshot that they were read from is installed
and no update is under way, and each of them is for a missing key that the call asks
for once. -/
def AddsFresh (taken : Taken (NamespaceState Pri) (ClientAction Pri)) : Prop :=
  ∀ client call batch t version key, taken.label = .add client →
    taken.before.clients client = .loaded call batch t version → t.lookup key ≠ none →
    version = taken.before.installed ∧ taken.before.updater = .idle ∧
    key ∈ batch.missingKeys ∧ asked batch.missingKeys key = 1

/-- The cache holds what the installed snapshot answers, and nothing while an update
is under way. -/
structure Current (digest : List UInt8 → List UInt8) (hashSalt : GoString)
    (snapshots : Nat → Queries Pri) (requests : Set Request) (s : NamespaceState Pri) : Prop where
  entries : s.updater = .idle → ∀ cacheKey v, s.cache.lookup cacheKey = some v →
    ∃ request ∈ requests, cacheKey = request.cacheKey digest hashSalt ∧
      request.Answers (snapshots s.installed) v
  updating : s.updater ≠ .idle → ∀ cacheKey, s.cache.lookup cacheKey = none

theorem current_step {requests : Set Request}
    (perKey : ∀ version whoami viewMode needExplain,
      AnswersPerKey (snapshots version whoami viewMode needExplain))
    (sound : ∀ client, (s.clients client).Sound digest hashSalt snapshots requests)
    (current : Current digest hashSalt snapshots requests s)
    (taken : Step digest hashSalt cacheSize snapshots s action next)
    (fresh : AddsFresh ⟨s, action, next⟩) : Current digest hashSalt snapshots requests next := by
  rcases step_updater taken with ⟨installed, updater⟩ | ⟨empty, busy⟩ | ⟨cache, busy⟩
  · constructor
    · intro idle cacheKey v found
      rw [updater] at idle
      rw [installed]
      rcases step_entry taken found with ⟨earlier, -⟩ |
        ⟨client, call, batch, t, version, order, label, loaded, listing, new, -⟩
      · exact current.entries idle cacheKey v earlier
      · have local_ := sound client
        rw [loaded] at local_
        obtain ⟨⟨⟨cache, rfl⟩, requested⟩, raw⟩ := local_
        obtain ⟨key, answer, place⟩ := mem_added_batch listing new
        obtain ⟨rfl, -, missing, single⟩ := fresh client call _ t version key label loaded (by simp [answer])
        have listed : key ∈ call.keys := by
          rw [Call.batch, batchReadFromCache_missingKeys] at missing
          exact List.mem_of_mem_filter missing
        refine ⟨call.request key, requested key listed, ?_, raw_single (perKey _) raw single answer⟩
        rcases place with ⟨-, same⟩ | ⟨absent, -⟩
        · exact same
        · exact absurd missing absent
    · intro busy cacheKey
      rw [updater] at busy
      cases found : next.cache.lookup cacheKey with
      | none => rfl
      | some v =>
          rcases step_entry taken found with ⟨earlier, -⟩ |
            ⟨client, call, batch, t, version, order, label, loaded, listing, new, -⟩
          · rw [current.updating busy] at earlier
            cases earlier
          · obtain ⟨key, answer⟩ := listing.answer new
            exact absurd (fresh client call batch t version key label loaded answer).2.1 busy
  · exact ⟨fun idle => absurd idle busy, fun _ => empty⟩
  · have empty : ∀ cacheKey, next.cache.lookup cacheKey = none := by
      rw [cache]
      exact current.updating busy
    refine ⟨fun _ cacheKey v found => ?_, fun _ => empty⟩
    rw [empty] at found
    cases found

/-- No update and no call is in progress. -/
def NamespaceState.Quiet (s : NamespaceState Pri) : Prop :=
  s.updater = .idle ∧ ∀ client, s.clients client = .idle

/-- The requests of the calls that went on to the library. -/
def readRequests (steps : List (Taken (NamespaceState Pri) (ClientAction Pri))) : Set Request :=
  {request | ∃ taken ∈ steps, ∃ client call, taken.label = .read client call ∧
    ∃ key ∈ call.keys, request = call.request key}

end Steps

section Runs

variable [LinearOrder Pri] (sort : SortUnstableBy Pri) (newWhoami : CText → MatchContext)
  (stores : Nat → MemStorage Pri) (rules : Nat → List IdxRuleItem)

/-- The queries of the snapshots that are installed one after the other. -/
def snapshotsQueries (version : Nat) : Queries Pri :=
  snapshotQueries sort newWhoami (stores version) (rules version)

/-- Each call returns values of one snapshot as long as no values are added to those
of another one. -/
theorem one_version (digest : List UInt8 → List UInt8) (hashSalt : GoString) (cacheSize : Nat)
    (steps : List (Taken (NamespaceState Pri) (ClientAction Pri))) (state : NamespaceState Pri)
    (run : Run (Step digest hashSalt cacheSize (snapshotsQueries sort newWhoami stores rules))
      (.start cacheSize) steps state)
    (alike : ∀ taken ∈ steps, AddsAlike taken) :
    ∀ taken ∈ steps, OneVersion digest hashSalt (snapshotsQueries sort newWhoami stores rules) taken := by
  have asks : ∀ taken : Taken (NamespaceState Pri) (ClientAction Pri), Asks Set.univ taken :=
    fun _ _ _ _ _ _ => Set.mem_univ _
  have whole := Run.forall_of (fun s : NamespaceState Pri =>
      (∀ client, (s.clients client).Sound digest hashSalt (snapshotsQueries sort newWhoami stores rules)
        Set.univ) ∧
      (∀ cacheKey v, s.cache.lookup cacheKey = some v → ReadFrom digest hashSalt
        (snapshotsQueries sort newWhoami stores rules (s.readFrom cacheKey)) cacheKey v) ∧ Uniform s)
    run alike ⟨fun _ => trivial, fun _ _ found => absurd found (by simp [start_lookup]), 0, fun _ _ => rfl⟩
    (fun _ _ _ inv taken here => ⟨sound_step inv.1 taken (asks _), readFrom_step inv.1 inv.2.1 taken,
      uniform_step inv.2.2 taken here⟩)
    fun _ _ _ inv taken _ => uniform_returns inv.2.2 inv.2.1 taken
  exact whole.2

/-- Between updates and calls the cache holds what the installed snapshot answers as
long as no values are added after the update of their snapshot has begun, nor for a
repeated key. -/
theorem quiet_cache_current (digest : List UInt8 → List UInt8) (hashSalt : GoString) (cacheSize : Nat)
    (steps : List (Taken (NamespaceState Pri) (ClientAction Pri))) (state : NamespaceState Pri)
    (run : Run (Step digest hashSalt cacheSize (snapshotsQueries sort newWhoami stores rules))
      (.start cacheSize) steps state)
    (fresh : ∀ taken ∈ steps, AddsFresh taken) (quiet : state.Quiet) :
    ∀ cacheKey v, state.cache.lookup cacheKey = some v →
      ∃ request ∈ readRequests steps, cacheKey = request.cacheKey digest hashSalt ∧
        request.Answers (snapshotsQueries sort newWhoami stores rules state.installed) v := by
  have asks : ∀ taken ∈ steps, AddsFresh taken ∧ Asks (readRequests steps) taken := by
    intro taken member
    refine ⟨fresh taken member, fun client call label key listed => ?_⟩
    exact ⟨taken, member, client, call, label, key, listed, rfl⟩
  have whole := Run.forall_of (P := fun _ => True) (fun s : NamespaceState Pri =>
      (∀ client, (s.clients client).Sound digest hashSalt (snapshotsQueries sort newWhoami stores rules)
        (readRequests steps)) ∧
      Current digest hashSalt (snapshotsQueries sort newWhoami stores rules) (readRequests steps) s)
    run asks ⟨fun _ => trivial, fun _ _ _ found => absurd found (by simp [start_lookup]), fun _ _ => rfl⟩
    (fun _ _ _ inv taken here => ⟨sound_step inv.1 taken here.2,
      current_step (fun version => snapshotQueries_perKey sort newWhoami (stores version) (rules version))
        inv.1 inv.2 taken here.1⟩)
    fun _ _ _ _ _ _ => trivial
  exact whole.1.2.entries quiet.1

end Runs

/-! ### Two keys and one update -/

/-- One rule that holds in every context, one link and one resource with two keys. -/
def samplePairs (data : Char) : MemStorage Nat where
  version := { name := [], id := .empty }
  indices :=
    { ruleStor := RuleIndex.empty.addRule ['r'] { metadata := ⟨[], []⟩, spec := ⟨.and []⟩ }
      linkStor := ⟨Finmap.singleton ['r'] [⟨1, false, ['r'], ['s'], ['l']⟩]⟩
      resStor := ⟨Finmap.singleton ['s'] ⟨[⟨[], ['a'], [data]⟩, ⟨[], ['b'], [data]⟩], ['s']⟩⟩ }

/-- The first snapshot has other values than the later ones. -/
def sampleData (version : Nat) : Char := if version = 0 then 'v' else 'w'

def sampleSnapshots : Nat → Queries Nat :=
  snapshotsQueries sortLinks (fun _ => ∅) (fun version => samplePairs (sampleData version))
    fun _ => [⟨.and [], ['r']⟩]

def pairValue (key data : Char) : CFGValue Nat :=
  { key := utf8Bytes [key], contextType := [], value := utf8Bytes [data], reason := none }

theorem sampleSnapshots_answered (version : Nat) (whoami : GoString) {key : Char}
    (held : key = 'a' ∨ key = 'b') :
    answered (sampleSnapshots version whoami .overlaidView false) (utf8Bytes [key]) =
      some [⟨utf8Bytes [key], [], utf8Bytes [sampleData version], none⟩] := by
  have shown : sampleSnapshots version whoami .overlaidView false [[key]] =
      some [⟨none, ⟨[], [key], [sampleData version]⟩⟩] := by
    rcases held with rfl | rfl <;> rfl
  have data : CText.new [sampleData version] = .ok (utf8Bytes [sampleData version]) := by
    unfold sampleData
    split <;> rfl
  have named : CText.new [key] = .ok (utf8Bytes [key]) := by
    rcases held with rfl | rfl <;> rfl
  have whole : getConfig (sampleSnapshots version whoami .overlaidView false) [utf8Bytes [key]] =
      .ok [⟨utf8Bytes [key], [], utf8Bytes [sampleData version], none⟩] := by
    simp only [getConfig, convertGetCfgInputValue, List.mapM_cons, List.mapM_nil, toStr_utf8Bytes, lift, bind,
      Except.bind, pure, Except.pure, shown, convertGetCfgOutputValue, convertResult, convertReason, data,
      named]
    rfl
  rw [answered, whole]
  rfl

def pairsCall (keys : List Char) : Call :=
  { whoami := [119], keys := keys.map fun key => utf8Bytes [key], viewMode := .overlaidView,
    needExplain := false }

/-- What the library answers for one key. -/
def pairAnswer (key : Char) (version : Nat) : GoMap (List (CFGValue Nat)) :=
  Finmap.insert (utf8Bytes [key]) [pairValue key (sampleData version)] ∅

theorem pairAnswer_lookup (key : Char) (version : Nat) :
    (pairAnswer key version).lookup (utf8Bytes [key]) = some [pairValue key (sampleData version)] :=
  Finmap.lookup_insert _

theorem pairAnswer_lookup_ne_none {key : Char} {version : Nat} {other : GoString}
    (answer : (pairAnswer key version).lookup other ≠ none) : other = utf8Bytes [key] := by
  by_contra differs
  rw [pairAnswer, Finmap.lookup_insert_of_ne _ differs] at answer
  exact answer (Finmap.lookup_empty other)

theorem pairAnswer_listing (key : Char) (version : Nat) :
    Listing (pairAnswer key version) [(utf8Bytes [key], [pairValue key (sampleData version)])] := by
  refine ⟨by simp, fun other value => ?_⟩
  rw [List.mem_singleton, Prod.mk.injEq]
  constructor
  · intro same
    obtain ⟨rfl, rfl⟩ := same
    exact pairAnswer_lookup key version
  · intro found
    obtain rfl := pairAnswer_lookup_ne_none (ne_of_eq_of_ne found (by simp))
    rw [pairAnswer_lookup] at found
    exact ⟨rfl, (Option.some.inj found).symm⟩

theorem sampleSnapshots_perKey (version : Nat) (whoami : GoString) (viewMode : ViewMode)
    (needExplain : Bool) : AnswersPerKey (sampleSnapshots version whoami viewMode needExplain) :=
  snapshotQueries_perKey sortLinks (fun _ => ∅) (samplePairs (sampleData version)) [⟨.and [], ['r']⟩]
    whoami viewMode needExplain

theorem pairsCall_raw (version : Nat) {key : Char} (held : key = 'a' ∨ key = 'b') (keys : List Char) :
    (pairsCall keys).raw (sampleSnapshots version) [utf8Bytes [key]] = .ok (pairAnswer key version) := by
  have seen : cString (utf8Bytes [key]) = utf8Bytes [key] := by
    rcases held with rfl | rfl <;> rfl
  have found := sampleSnapshots_answered version [119] held
  refine (getCfgRawNoCache_eq_ok (sampleSnapshots_perKey _ _ _ _) (List.cons_ne_nil _ [])).mpr ⟨?_, ?_⟩
  · intro single member
    rw [List.mem_singleton.mp member, seen]
    exact fun absent => by cases found.symm.trans absent
  · have values : valuesOf (sampleSnapshots version [119] .overlaidView false) (utf8Bytes [key]) =
        [pairValue key (sampleData version)] := by
      rw [valuesOf, found]
      rfl
    rw [List.map_singleton, seen, List.flatMap_singleton]
    exact congrArg (List.foldl appendValue ∅) values.symm

/-- The cache key of a key of the sample calls. -/
def pairCacheKey (key : Char) : GoString := (pairsCall []).cacheKey sampleDigest [] (utf8Bytes [key])

abbrev SampleRun := Run (Step sampleDigest [] 0 sampleSnapshots) (.start 0)

abbrev SampleSteps := List (Taken (NamespaceState Nat) (ClientAction Nat))

def emptyState (installed : Nat) : NamespaceState Nat where
  cache := .new 0
  readFrom _ := 0
  installed
  updater := .idle
  clients _ := .idle

/-- A client has loaded the values of one key, from a snapshot. -/
def loadedState (version installed : Nat) : NamespaceState Nat :=
  { emptyState installed with
    clients := Function.update (fun _ => .idle) 0
      (.loaded (pairsCall ['a']) ((pairsCall ['a']).batch sampleDigest [] (.new 0)) (pairAnswer 'a' version)
        version) }

theorem sample_fills (version : Nat) {steps : SampleSteps} (run : SampleRun steps (emptyState version)) :
    ∃ more, SampleRun (steps ++ more) (loadedState version version) ∧
      more.map Taken.label = [.read 0 (pairsCall ['a']), .load 0] := by
  have missing : ((pairsCall ['a']).batch sampleDigest [] (.new 0 : CfgCache Nat)).missingKeys ≠ [] := by decide
  have reads : Step sampleDigest [] 0 sampleSnapshots (emptyState version) (.read 0 (pairsCall ['a'])) _ :=
    .read rfl (by simp [emptyState]) missing
  have read := run.snoc reads
  have loaded := read.snoc (Step.load (Function.update_self ..) (pairsCall_raw version (.inl rfl) ['a']))
  rw [Function.update_idem, List.append_assoc] at loaded
  exact ⟨_, loaded, rfl⟩

theorem sample_update {s : NamespaceState Nat} {steps : SampleSteps} (run : SampleRun steps s)
    (idle : s.updater = .idle) :
    ∃ more, SampleRun (steps ++ more) { s with cache := .new 0, installed := s.installed + 1 } ∧
      more.map Taken.label = [.replace, .release, .swap] := by
  have replace := run.snoc (Step.replace idle)
  have release := replace.snoc (Step.release rfl)
  have swap := release.snoc (Step.swap rfl)
  rw [List.append_assoc, List.append_assoc, ← idle] at swap
  exact ⟨_, swap, rfl⟩

/-- The values of a snapshot are in the cache. -/
def addedState (version installed : Nat) : NamespaceState Nat :=
  { emptyState installed with
    cache := (Lru.Cache.new 0).add (pairCacheKey 'a') [pairValue 'a' (sampleData version)]
    readFrom :=
      readFromAfter (fun _ => 0) [(pairCacheKey 'a', [pairValue 'a' (sampleData version)])] version }

theorem loadedState_client (version installed : Nat) : (loadedState version installed).clients 0 =
    .loaded (pairsCall ['a']) ((pairsCall ['a']).batch sampleDigest [] (.new 0)) (pairAnswer 'a' version)
      version := by
  simp only [loadedState, Function.update_self]

theorem sample_adds (version installed : Nat) {steps : SampleSteps}
    (run : SampleRun steps (loadedState version installed)) :
    ∃ adds returns, SampleRun (steps ++ [adds] ++ [returns]) (addedState version installed) ∧
      adds.before = loadedState version installed ∧ adds.label = .add 0 ∧
      ∃ values, returns.label = .returns 0 (pairsCall ['a']) (.ok values) := by
  have add := run.snoc (Step.add (loadedState_client version installed) (by simp [loadedState, emptyState])
    (pairAnswer_listing 'a' version))
  have returns := add.snoc (Step.readAgain (Function.update_self ..) (by simp [loadedState, emptyState]))
  have idle : Function.update (loadedState version installed).clients 0 .idle = fun _ => .idle := by
    rw [loadedState, Function.update_idem, Function.update_eq_self]
  rw [Function.update_idem, idle] at returns
  exact ⟨_, _, returns, rfl, rfl, _, rfl⟩

/-- Another client finds the values of one key in the cache, and loads those of the other. -/
theorem sample_second (version installed : Nat) {steps : SampleSteps}
    (run : SampleRun steps (addedState version installed)) :
    ∃ more adds returns state, SampleRun (steps ++ more ++ [adds] ++ [returns]) state ∧
      more.map Taken.label = [.read 1 (pairsCall ['a', 'b']), .load 1] ∧
      (adds.label = .add 1 ∧ (∃ call batch t, adds.before.clients 1 = .loaded call batch t installed) ∧
        adds.before.readFrom = (addedState version installed).readFrom ∧
        ∀ cacheKey, adds.before.cache.lookup cacheKey = (addedState version installed).cache.lookup cacheKey) ∧
      returns.before.readFrom (pairCacheKey 'a') = version ∧
      returns.before.readFrom (pairCacheKey 'b') = installed ∧
      ∃ values, returns.label = .returns 1 (pairsCall ['a', 'b']) (.ok values) ∧
        values.lookup (utf8Bytes ['a']) = some [pairValue 'a' (sampleData version)] ∧
        values.lookup (utf8Bytes ['b']) = some [pairValue 'b' (sampleData installed)] := by
  have missing : ((pairsCall ['a', 'b']).batch sampleDigest [] (addedState version installed).cache).missingKeys =
    [utf8Bytes ['b']] := rfl
  have reads : Step sampleDigest [] 0 sampleSnapshots (addedState version installed)
    (.read 1 (pairsCall ['a', 'b'])) _ := .read rfl (by simp [addedState, emptyState]) (by simp [missing])
  have read := run.snoc reads
  have load := read.snoc
    (Step.load (Function.update_self ..) (pairsCall_raw installed (.inr rfl) ['a', 'b']))
  have add := load.snoc (Step.add (Function.update_self ..) (by simp [addedState, emptyState])
    (pairAnswer_listing 'b' installed))
  have again := add.snoc (Step.readAgain (Function.update_self ..) (by simp [addedState, emptyState]))
  rw [List.append_assoc steps] at again
  exact ⟨_, _, _, _, again, rfl, ⟨rfl, ⟨_, _, _, rfl⟩, rfl, batch_lookup _ _⟩, rfl, rfl, _, rfl,
    rfl, rfl⟩

/-- What the cache holds when values are added is of their snapshot, which is installed. -/
def AddsOwn (taken : Taken (NamespaceState Nat) (ClientAction Nat)) : Prop :=
  AddsAlike taken ∧ AddsFresh taken

theorem addsOwn_of_labels {more : SampleSteps} {labels : List (ClientAction Nat)}
    (same : more.map Taken.label = labels) (none_ : ∀ client, .add client ∉ labels) :
    ∀ taken ∈ more, AddsOwn taken := by
  intro taken member
  have listed := List.mem_map_of_mem (f := Taken.label) member
  rw [same] at listed
  constructor
  · intro client call batch t version adding
    exact absurd (adding ▸ listed) (none_ client)
  · intro client call batch t version key adding
    exact absurd (adding ▸ listed) (none_ client)

theorem addsOwn_loaded {version : Nat} {taken : Taken (NamespaceState Nat) (ClientAction Nat)}
    (before : taken.before = loadedState version version) (label : taken.label = .add 0) : AddsOwn taken := by
  constructor
  · intro client call batch t version' adding loaded _ cacheKey present
    rw [before] at present
    exact absurd rfl present
  · intro client call batch t version' key adding loaded answer
    rw [label] at adding
    cases adding
    rw [before, loadedState_client] at loaded
    cases loaded
    rw [before]
    obtain rfl := pairAnswer_lookup_ne_none answer
    exact ⟨rfl, rfl, List.mem_singleton_self _, rfl⟩

/-- The values of one key are added, dropped by an update, and added from the new snapshot. -/
theorem sample_twice : ∃ steps, SampleRun steps (addedState 1 1) ∧ ∀ taken ∈ steps, AddsOwn taken := by
  have start : SampleRun [] (emptyState 0) := .nil
  have returned : ∀ {returns : Taken (NamespaceState Nat) (ClientAction Nat)} {values},
      returns.label = .returns 0 (pairsCall ['a']) (.ok values) → ∀ taken ∈ [returns], AddsOwn taken :=
    fun label => addsOwn_of_labels (congrArg (· :: []) label) (by simp)
  obtain ⟨first, loaded, labels⟩ := sample_fills 0 start
  obtain ⟨adds, returns, added, before, label, _, answer⟩ := sample_adds 0 0 loaded
  obtain ⟨update, updated, labels'⟩ := sample_update added rfl
  have fresh : emptyState 1 = ⟨.new 0, (addedState 0 0).readFrom, 1, .idle, fun _ => .idle⟩ := by
    have unread : (addedState 0 0).readFrom = fun _ => 0 := funext fun _ => ite_self _
    rw [unread]
    rfl
  have emptied : SampleRun ([] ++ first ++ [adds] ++ [returns] ++ update) (emptyState 1) := by
    rw [fresh]
    exact updated
  obtain ⟨second, loaded', labels''⟩ := sample_fills 1 emptied
  obtain ⟨adds', returns', added', before', label', _, answer'⟩ := sample_adds 1 1 loaded'
  refine ⟨_, added', ?_⟩
  simp only [List.forall_mem_append, List.nil_append]
  exact ⟨⟨⟨⟨⟨⟨addsOwn_of_labels labels (by simp), List.forall_mem_singleton.mpr (addsOwn_loaded before label)⟩,
    returned answer⟩, addsOwn_of_labels labels' (by simp)⟩, addsOwn_of_labels labels'' (by simp)⟩,
    List.forall_mem_singleton.mpr (addsOwn_loaded before' label')⟩, returned answer'⟩

theorem mem_readRequests {steps : SampleSteps}
    {request : Request} (member : request ∈ readRequests steps) :
    ∃ client call, .read client call ∈ steps.map Taken.label ∧
      ∃ key ∈ call.keys, request = call.request key := by
  obtain ⟨taken, listed, client, call, label, asked⟩ := member
  exact ⟨client, call, List.mem_map.mpr ⟨taken, listed, label⟩, asked⟩

theorem quiet_cache_current_sample : ∃ steps state, SampleRun steps state ∧ state.Quiet ∧ state.installed = 1 ∧
    state.cache.lookup (pairCacheKey 'a') = some [pairValue 'a' 'w'] ∧
    ∀ cacheKey v, state.cache.lookup cacheKey = some v →
      ∃ request ∈ readRequests steps, cacheKey = request.cacheKey sampleDigest [] ∧
        request.Answers (sampleSnapshots state.installed) v := by
  obtain ⟨steps, run, own⟩ := sample_twice
  have quiet : (addedState 1 1).Quiet := ⟨rfl, fun _ => rfl⟩
  exact ⟨_, _, run, quiet, rfl, rfl,
    quiet_cache_current _ _ _ _ sampleDigest [] 0 _ _ run (fun taken member => (own taken member).2) quiet⟩

/-- Values that were loaded before an update are added after it, and stay. -/
theorem stale_entry : ∃ steps state, SampleRun steps state ∧ state.Quiet ∧
    ¬ ∀ cacheKey v, state.cache.lookup cacheKey = some v →
      ∃ request ∈ readRequests steps, cacheKey = request.cacheKey sampleDigest [] ∧
        request.Answers (sampleSnapshots state.installed) v := by
  have start : SampleRun [] (emptyState 0) := .nil
  obtain ⟨first, loaded, labels⟩ := sample_fills 0 start
  obtain ⟨update, updated, labels'⟩ := sample_update loaded rfl
  obtain ⟨adds, returns, run, -, label, answer, label'⟩ := sample_adds 0 1 updated
  refine ⟨_, _, run, ⟨rfl, fun _ => rfl⟩, fun current => ?_⟩
  obtain ⟨request, known, -, m, raw, found⟩ := current (pairCacheKey 'a') [pairValue 'a' 'v'] rfl
  obtain ⟨client, call, listed, key, asked_, rfl⟩ := mem_readRequests known
  simp only [List.map_append, labels, labels', List.map_singleton, label, label'] at listed
  obtain ⟨-, rfl⟩ : client = 0 ∧ call = pairsCall ['a'] := by simpa using listed
  obtain rfl : key = utf8Bytes ['a'] := by simpa [pairsCall] using asked_
  have same := raw.symm.trans (pairsCall_raw 1 (.inl rfl) ['a'])
  obtain rfl := Except.ok.inj same
  have values := congrArg (Option.map (List.map CFGValue.value))
    (found.symm.trans (pairAnswer_lookup 'a' 1))
  exact absurd values (by decide)

/-- A call reads one key from the cache, which was filled after an update, and loads the other. -/
theorem one_version_sample : ∃ steps state, SampleRun steps state ∧
    (∃ taken ∈ steps, ∃ values, taken.label = .returns 1 (pairsCall ['a', 'b']) (.ok values) ∧
      values.lookup (utf8Bytes ['a']) = some [pairValue 'a' 'w'] ∧
      values.lookup (utf8Bytes ['b']) = some [pairValue 'b' 'w']) ∧
    ∀ taken ∈ steps, OneVersion sampleDigest [] sampleSnapshots taken := by
  obtain ⟨steps, twice, own⟩ := sample_twice
  obtain ⟨more, adds, returns, state, run, labels, ⟨label, ⟨call, batch, t, loaded⟩, readFrom, same⟩, -, -, values,
    answer, found⟩ := sample_second 1 1 twice
  refine ⟨_, _, run, ⟨returns, List.mem_append_right _ (List.mem_singleton_self _), values, answer, found⟩,
    one_version _ _ _ _ sampleDigest [] 0 _ _ run ?_⟩
  simp only [List.forall_mem_append, List.forall_mem_singleton]
  refine ⟨⟨⟨fun taken member => (own taken member).1,
    fun taken member => (addsOwn_of_labels labels (by simp) taken member).1⟩, ?_⟩, ?_⟩
  · intro client call' batch' t' version adding loaded' _ cacheKey present
    rw [label] at adding
    cases adding
    cases loaded.symm.trans loaded'
    rw [same] at present
    obtain ⟨value, found⟩ := Option.ne_none_iff_exists'.mp present
    have held : (cacheKey, value) ∈ [(pairCacheKey 'a', [pairValue 'a' (sampleData 1)])] :=
      Lru.Cache.lookup_eq_some.mp found
    obtain ⟨rfl, -⟩ := Prod.mk.inj (List.mem_singleton.mp held)
    rw [readFrom]
    rfl
  · intro client _ _ _ _ adding
    rw [answer] at adding
    cases adding

/-- A call for two keys finds one in the cache, from the first snapshot, and loads
the other one from the second. -/
theorem mixed_versions : ∃ steps state, SampleRun steps state ∧
    ¬ ∀ taken ∈ steps, OneVersion sampleDigest [] sampleSnapshots taken := by
  have start : SampleRun [] (emptyState 0) := .nil
  obtain ⟨before, loaded, -⟩ := sample_fills 0 start
  obtain ⟨update, updated, -⟩ := sample_update loaded rfl
  obtain ⟨_, _, stale, -⟩ := sample_adds 0 1 updated
  obtain ⟨more, adds, returns, state, run, -, -, first, second, values, answer, found, found'⟩ :=
    sample_second 0 1 stale
  refine ⟨_, _, run, fun one => ?_⟩
  obtain ⟨version, same⟩ := one returns (List.mem_append_right _ (List.mem_singleton_self _)) 1 _ values answer
  have zero := (same _ _ found).1
  have one := (same _ _ found').1
  exact absurd ((first.symm.trans zero).trans (one.symm.trans second)) (by decide)

end Eafcc.Go
