import Mathlib.Data.List.Dedup
import Mathlib.Data.List.Induction
import Mathlib.Data.List.Nodup

namespace Lru

/-! # A cache that keeps what was used last

The entries are listed with the most recently used first. A limit of zero stands
for no limit. -/

variable {κ α : Type} {entries used : List (κ × α)} {item : κ × α} {key : κ} {value : α}
  {maxEntries : Nat}

def Distinct (entries : List (κ × α)) : Prop := (entries.map Prod.fst).Nodup

def limit (maxEntries : Nat) (entries : List (κ × α)) : List (κ × α) :=
  if maxEntries = 0 then entries else entries.take maxEntries

theorem limit_sublist : (limit maxEntries entries).Sublist entries := by
  unfold limit
  split
  · exact List.Sublist.refl _
  · exact List.take_sublist _ _

theorem limit_distinct (distinct : Distinct entries) : Distinct (limit maxEntries entries) :=
  distinct.sublist (limit_sublist.map _)

theorem limit_length : maxEntries = 0 ∨ (limit maxEntries entries).length ≤ maxEntries := by
  unfold limit
  split
  · exact .inl ‹_›
  · exact .inr (List.length_take_le _ _)

theorem limit_eq_self (bounded : maxEntries = 0 ∨ entries.length ≤ maxEntries) :
    limit maxEntries entries = entries := by
  unfold limit
  split
  · rfl
  · rename_i limited
    exact List.take_of_length_le (bounded.resolve_left limited)

/-- What is within the limit stays when older entries follow. -/
theorem subset_limit_append {older : List (κ × α)}
    (bounded : maxEntries = 0 ∨ entries.length ≤ maxEntries) :
    entries ⊆ limit maxEntries (entries ++ older) := by
  unfold limit
  split
  · exact List.subset_append_left _ _
  · rename_i limited
    rw [List.take_append, List.take_of_length_le (bounded.resolve_left limited)]
    exact List.subset_append_left _ _

/-- No older entry stays unless all newer ones do. -/
theorem bounded_of_mem_limit {older : List (κ × α)} (distinct : Distinct (entries ++ older))
    (member : item ∈ older) (kept : item ∈ limit maxEntries (entries ++ older)) :
    maxEntries = 0 ∨ entries.length < maxEntries := by
  unfold limit at kept
  split at kept
  · exact .inl ‹_›
  · rw [List.take_append, List.mem_append] at kept
    rcases kept with newer | rest
    · have apart := List.nodup_append.mp (List.Nodup.of_map _ distinct)
      exact absurd rfl (apart.2.2 item (List.mem_of_mem_take newer) item member)
    · by_contra most
      push Not at most
      have none_ : maxEntries - entries.length = 0 := by omega
      simp [none_] at rest

variable [DecidableEq κ]

/-- Puts an entry in front, in the place of the one with its key. -/
def touch (entries : List (κ × α)) (item : κ × α) : List (κ × α) :=
  item :: entries.filter fun other => other.1 ≠ item.1

def touchAll (entries used : List (κ × α)) : List (κ × α) := used.foldl touch entries

def lookup (entries : List (κ × α)) (key : κ) : Option α :=
  (entries.find? fun item => item.1 = key).map Prod.snd

theorem mem_of_lookup (found : lookup entries key = some value) : (key, value) ∈ entries := by
  obtain ⟨item, first, rfl⟩ := Option.map_eq_some_iff.mp found
  have here := List.find?_some first
  simp only [decide_eq_true_eq] at here
  rw [← here]
  exact List.mem_of_find?_eq_some first

theorem lookup_eq_some (distinct : Distinct entries) :
    lookup entries key = some value ↔ (key, value) ∈ entries := by
  refine ⟨mem_of_lookup, fun member => ?_⟩
  simp only [lookup, Option.map_eq_some_iff]
  cases first : entries.find? fun item => item.1 = key with
  | none => simpa using List.find?_eq_none.mp first _ member
  | some other =>
      have same := List.find?_some first
      simp only [decide_eq_true_eq] at same
      have listed := List.mem_of_find?_eq_some first
      have equal := List.inj_on_of_nodup_map distinct listed member same
      exact ⟨other, rfl, by rw [equal]⟩

theorem lookup_eq_none : lookup entries key = none ↔ key ∉ entries.map Prod.fst := by
  rw [lookup, Option.map_eq_none_iff, List.find?_eq_none]
  simp only [decide_eq_true_eq, List.mem_map, not_exists, not_and]

theorem lookup_eq_some_of_forall (member : key ∈ entries.map Prod.fst)
    (same : ∀ item ∈ entries, item.1 = key → item.2 = value) : lookup entries key = some value := by
  cases found : entries.find? fun item => item.1 = key with
  | none => exact absurd member (lookup_eq_none.mp (by rw [lookup, found, Option.map_none]))
  | some item =>
      have here := List.find?_some found
      simp only [decide_eq_true_eq] at here
      rw [lookup, found, Option.map_some, same item (List.mem_of_find?_eq_some found) here]

theorem touch_distinct (distinct : Distinct entries) : Distinct (touch entries item) := by
  refine List.nodup_cons.mpr ⟨?_, distinct.sublist (List.filter_sublist.map _)⟩
  simp

theorem touchAll_distinct (distinct : Distinct entries) : Distinct (touchAll entries used) := by
  induction used generalizing entries with
  | nil => exact distinct
  | cons item used ih => exact ih (touch_distinct distinct)

/-! ## What a sequence of uses leaves -/

theorem touchAll_snoc : touchAll entries (used ++ [item]) = touch (touchAll entries used) item := by
  simp [touchAll]

/-- The entries used come first, and the others stay in their order. -/
theorem touchAll_eq (entries used : List (κ × α)) : touchAll entries used =
    touchAll [] used ++ entries.filter fun other => other.1 ∉ used.map Prod.fst := by
  induction used using List.reverseRecOn with
  | nil => simp [touchAll]
  | append_singleton used item ih =>
      rw [touchAll_snoc, touchAll_snoc, ih, touch, touch, List.filter_append, List.filter_filter,
        List.cons_append]
      congr 3
      funext other
      rw [Bool.eq_iff_iff]
      simp only [ne_eq, decide_not, Bool.and_eq_true, Bool.not_eq_true', decide_eq_false_iff_not,
        List.map_append, List.mem_append, List.map_singleton, List.mem_singleton, not_or,
        decide_eq_true_eq]
      exact and_comm

theorem mem_keys_touchAll : key ∈ (touchAll [] used).map Prod.fst ↔ key ∈ used.map Prod.fst := by
  induction used using List.reverseRecOn with
  | nil => simp [touchAll]
  | append_singleton used item ih =>
      rw [touchAll_snoc, touch, List.map_cons, List.mem_cons, List.map_append, List.mem_append]
      by_cases same : key = item.1
      · simp [same]
      · have kept : key ∈ ((touchAll [] used).filter fun other => other.1 ≠ item.1).map Prod.fst ↔
            key ∈ (touchAll [] used).map Prod.fst := by
          simp only [List.mem_map, List.mem_filter]
          constructor
          · intro found
            obtain ⟨other, ⟨member, -⟩, rfl⟩ := found
            exact ⟨other, member, rfl⟩
          · intro found
            obtain ⟨other, member, rfl⟩ := found
            exact ⟨other, ⟨member, by simpa using same⟩, rfl⟩
        rw [kept, ih, List.map_singleton, List.mem_singleton]
        simp only [same, false_or, or_false]

/-- As many entries are used as there are keys. -/
theorem length_touchAll : (touchAll [] used).length = (used.map Prod.fst).dedup.length := by
  have distinct : ((touchAll [] used).map Prod.fst).Nodup := touchAll_distinct List.nodup_nil
  have same : ((touchAll [] used).map Prod.fst).Perm (used.map Prod.fst).dedup := by
    rw [List.perm_ext_iff_of_nodup distinct (List.nodup_dedup _)]
    intro key
    rw [mem_keys_touchAll, List.mem_dedup]
  have lengths := same.length_eq
  rwa [List.length_map] at lengths

/-- The value last used with a key, or else the one that was there. -/
theorem lookup_touchAll : lookup (touchAll entries used) key =
    (lookup used.reverse key).or (lookup entries key) := by
  induction used using List.reverseRecOn with
  | nil => simp [touchAll, lookup]
  | append_singleton used item ih =>
      rw [touchAll_snoc, List.reverse_append, List.reverse_singleton, List.singleton_append]
      by_cases same : item.1 = key
      · simp [lookup, touch, same]
      · have kept : lookup (touch (touchAll entries used) item) key =
            lookup (touchAll entries used) key := by
          simp only [lookup, touch, List.find?_cons, same, decide_false]
          rw [List.find?_filter]
          congr 2
          funext other
          by_cases here : other.1 = key
          · simp [here, Ne.symm same]
          · simp [here]
        rw [kept, ih]
        simp [lookup, same]

/-! ## Use within the limit -/

theorem take_filter_take {rest : Nat} (distinct : Distinct entries) :
    ((entries.take (rest + 1)).filter fun other => other.1 ≠ key).take rest =
      (entries.filter fun other => other.1 ≠ key).take rest := by
  induction entries generalizing rest with
  | nil => rfl
  | cons first entries ih =>
      obtain ⟨fresh, distinct⟩ := List.nodup_cons.mp distinct
      cases rest with
      | zero => rfl
      | succ rest =>
          rw [List.take_succ_cons]
          by_cases same : first.1 = key
          · have others : ∀ other ∈ entries, decide (other.1 ≠ key) = true := by
              intro other member
              have differs : other.1 ≠ key := by
                intro equal
                exact fresh (List.mem_map.mpr ⟨other, member, equal.trans same.symm⟩)
              simpa using differs
            have taken : ∀ other ∈ entries.take (rest + 1), decide (other.1 ≠ key) = true :=
              fun other member => others other (List.mem_of_mem_take member)
            rw [List.filter_cons_of_neg (by simpa using same), List.filter_cons_of_neg (by simpa using same),
              List.filter_eq_self.mpr others, List.filter_eq_self.mpr taken, List.take_take, Nat.min_self]
          · rw [List.filter_cons_of_pos (by simpa using same), List.filter_cons_of_pos (by simpa using same),
              List.take_succ_cons, List.take_succ_cons, ih distinct]

/-- To apply the limit before another use is to apply it after it. -/
theorem limit_touch (distinct : Distinct entries) :
    limit maxEntries (touch (limit maxEntries entries) item) =
      limit maxEntries (touch entries item) := by
  unfold limit
  split
  · rfl
  · rename_i limited
    obtain ⟨rest, rfl⟩ := Nat.exists_eq_succ_of_ne_zero limited
    rw [touch, touch, Nat.succ_eq_add_one, List.take_succ_cons, List.take_succ_cons,
      take_filter_take distinct]

/-! ## The cache -/

structure Cache (κ α : Type) where
  maxEntries : Nat
  entries : List (κ × α)
  distinct : Distinct entries
  bounded : maxEntries = 0 ∨ entries.length ≤ maxEntries

namespace Cache

def new (maxEntries : Nat) : Cache κ α where
  maxEntries
  entries := []
  distinct := List.nodup_nil
  bounded := .inr (Nat.zero_le _)

/-- Makes an entry the most recently used one, and drops the oldest one if there
are too many. -/
def use (cache : Cache κ α) (item : κ × α) : Cache κ α where
  maxEntries := cache.maxEntries
  entries := limit cache.maxEntries (touch cache.entries item)
  distinct := limit_distinct (touch_distinct cache.distinct)
  bounded := limit_length

@[simp]
theorem use_maxEntries (cache : Cache κ α) (item : κ × α) :
    (cache.use item).maxEntries = cache.maxEntries := rfl

@[simp]
theorem use_entries (cache : Cache κ α) (item : κ × α) :
    (cache.use item).entries = limit cache.maxEntries (touch cache.entries item) := rfl

def lookup (cache : Cache κ α) (key : κ) : Option α := Lru.lookup cache.entries key

def get (cache : Cache κ α) (key : κ) : Option α × Cache κ α :=
  match cache.lookup key with
  | some value => (some value, cache.use (key, value))
  | none => (none, cache)

def add (cache : Cache κ α) (key : κ) (value : α) : Cache κ α := cache.use (key, value)

variable {cache : Cache κ α}

def useAll (cache : Cache κ α) (used : List (κ × α)) : Cache κ α := used.foldl use cache

theorem useAll_append (first second : List (κ × α)) :
    cache.useAll (first ++ second) = (cache.useAll first).useAll second := List.foldl_append

theorem useAll_maxEntries : (cache.useAll used).maxEntries = cache.maxEntries := by
  induction used generalizing cache with
  | nil => rfl
  | cons item used ih => exact ih

theorem useAll_entries : (cache.useAll used).entries =
    limit cache.maxEntries (touchAll cache.entries used) := by
  induction used using List.reverseRecOn with
  | nil => exact (limit_eq_self cache.bounded).symm
  | append_singleton used item ih =>
      have last : cache.useAll (used ++ [item]) = (cache.useAll used).use item := by simp [useAll]
      rw [last, use_entries, useAll_maxEntries, ih, touchAll_snoc]
      exact limit_touch (touchAll_distinct cache.distinct)

theorem lookup_eq_some {cache : Cache κ α} : cache.lookup key = some value ↔ (key, value) ∈ cache.entries :=
  Lru.lookup_eq_some cache.distinct

/-! ### Reading -/

theorem use_present (found : cache.lookup key = some value) (other : κ) :
    (cache.use (key, value)).lookup other = cache.lookup other := by
  have here := lookup_eq_some.mp found
  have same : (touch cache.entries (key, value)).Perm cache.entries := by
    have distinct : (touch cache.entries (key, value)).Nodup := (touch_distinct cache.distinct).of_map
    rw [List.perm_ext_iff_of_nodup distinct cache.distinct.of_map]
    intro item
    simp only [touch, List.mem_cons, List.mem_filter, decide_eq_true_eq]
    constructor
    · intro either
      rcases either with rfl | ⟨member, -⟩
      · exact here
      · exact member
    · intro member
      by_cases equal : item.1 = key
      · exact .inl (List.inj_on_of_nodup_map cache.distinct member here equal)
      · exact .inr ⟨member, equal⟩
  apply Option.ext
  intro value'
  rw [lookup_eq_some, lookup_eq_some, use_entries, limit_eq_self, same.mem_iff]
  rw [same.length_eq]
  exact cache.bounded

theorem get_fst : (cache.get key).1 = cache.lookup key := by
  unfold get
  split <;> simp [*]

theorem get_lookup (other : κ) : (cache.get key).2.lookup other = cache.lookup other := by
  unfold get
  split
  · exact use_present ‹_› other
  · rfl

/-- The entries that are found for some keys. -/
def hits (cache : Cache κ α) (keys : List κ) : List (κ × α) :=
  keys.filterMap fun key => (cache.lookup key).map fun value => (key, value)

def readAll (cache : Cache κ α) (keys : List κ) : Cache κ α :=
  keys.foldl (fun cache key => (cache.get key).2) cache

theorem readAll_eq (keys : List κ) (cache : Cache κ α) :
    cache.readAll keys = cache.useAll (cache.hits keys) := by
  induction keys generalizing cache with
  | nil => rfl
  | cons key keys ih =>
      have later : (cache.get key).2.hits keys = cache.hits keys := by
        simp only [hits, get_lookup]
      rw [readAll, List.foldl_cons, ← readAll, ih, later]
      unfold get
      cases found : cache.lookup key with
      | none => simp [hits, found]
      | some value => simp [hits, found, useAll]

theorem readAll_lookup (keys : List κ) (cache : Cache κ α) (other : κ) :
    (cache.readAll keys).lookup other = cache.lookup other := by
  induction keys generalizing cache with
  | nil => rfl
  | cons key keys ih => exact (ih _).trans (get_lookup other)

/-! ### Use -/

/-- A lookup gives what was last used with the key, if anything is still there. -/
theorem lookup_useAll (found : (cache.useAll used).lookup key = some value) :
    (Lru.lookup used.reverse key).or (cache.lookup key) = some value := by
  rw [lookup_eq_some, useAll_entries] at found
  have member := limit_sublist.subset found
  rw [← Lru.lookup_eq_some (touchAll_distinct cache.distinct), lookup_touchAll] at member
  exact member

/-- What was used is still there if it fits. -/
theorem lookup_useAll_of_fits
    (fits : cache.maxEntries = 0 ∨ (used.map Prod.fst).dedup.length ≤ cache.maxEntries)
    (member : key ∈ used.map Prod.fst) :
    (cache.useAll used).lookup key = Lru.lookup used.reverse key := by
  have listed : Lru.lookup used.reverse key ≠ none := by
    rw [ne_eq, lookup_eq_none, not_not, List.map_reverse, List.mem_reverse]
    exact member
  obtain ⟨value, last⟩ := Option.ne_none_iff_exists'.mp listed
  have first : Distinct ([] : List (κ × α)) := List.nodup_nil
  rw [last, lookup_eq_some, useAll_entries, touchAll_eq]
  refine subset_limit_append (by rwa [length_touchAll]) ?_
  rw [← Lru.lookup_eq_some (touchAll_distinct first), lookup_touchAll, last]
  rfl

/-- No older entry outlives one that was used. -/
theorem lookup_useAll_ne_none {older : κ} (fresh : older ∉ used.map Prod.fst)
    (kept : (cache.useAll used).lookup older ≠ none) (member : key ∈ used.map Prod.fst) :
    (cache.useAll used).lookup key ≠ none := by
  obtain ⟨value, found⟩ := Option.ne_none_iff_exists'.mp kept
  rw [lookup_eq_some, useAll_entries, touchAll_eq] at found
  have distinct : Distinct (touchAll cache.entries used) := touchAll_distinct cache.distinct
  rw [touchAll_eq] at distinct
  have later : (older, value) ∈ cache.entries.filter fun other => other.1 ∉ used.map Prod.fst := by
    rcases List.mem_append.mp (limit_sublist.subset found) with newer | rest
    · exact absurd (mem_keys_touchAll.mp (List.mem_map_of_mem newer)) fresh
    · exact rest
  have bounded := (bounded_of_mem_limit distinct later found).imp_right Nat.le_of_lt
  have listed := mem_keys_touchAll.mpr member
  obtain ⟨item, present, rfl⟩ := List.mem_map.mp listed
  rw [ne_eq, lookup, lookup_eq_none, not_not, useAll_entries, touchAll_eq]
  exact List.mem_map_of_mem (subset_limit_append bounded present)

/-- All that was used fits if all of it is still there. -/
theorem fits_of_present (keys : List κ)
    (present : ∀ key ∈ keys, cache.lookup key ≠ none) :
    cache.maxEntries = 0 ∨ keys.dedup.length ≤ cache.maxEntries := by
  refine cache.bounded.imp_right fun bounded => ?_
  have subset : keys.dedup ⊆ cache.entries.map Prod.fst := by
    intro key member
    have found := present key (List.mem_dedup.mp member)
    rw [lookup, ne_eq, lookup_eq_none, not_not] at found
    exact found
  have count := (List.nodup_dedup keys).length_le_of_subset subset
  rw [List.length_map] at count
  omega

end Cache

end Lru
