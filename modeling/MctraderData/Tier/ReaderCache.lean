import Mathlib.Algebra.Order.Ring.Unbundled.Rat
import Mathlib.Data.List.AList
import MctraderData.Base
import MctraderData.Lib.Effect

/-!
# mctrader-data — the reader cache

Model of `io/reader_cache.py`: a map from keys to bytes with a time to live, a bound on
the number of entries and a budget of bytes. The `OrderedDict` of the source is an
association list with the most recently used entry first, so that an insertion is also
a `move_to_end` and `popitem(last=False)` takes the last entry.

`time.monotonic()` is an argument, in seconds. Hit and miss counts and latencies are
left out: no read depends on them.

## Results

* `get_fst`, `fresh_get` — a lookup returns the fresh value of its key and takes nothing
  fresh away.
* `wp_put`               — after a `put` every cached value is the one put or was cached
  before; the call raises exactly when the cache has no room for one entry.
-/

namespace MctraderData.Tier

open Lib

structure CacheEntry (C : Type) where
  value : C
  insertedAt : ℚ
  lastAccessedAt : ℚ

/-- `OrderedDict[str, CacheEntry]`, most recently used first. -/
abbrev Entries (C : Type) := AList fun _ : Key => CacheEntry C

/-- The arguments of the constructor. -/
structure CacheConfig where
  capacity : ℤ
  ttlSeconds : ℚ
  maxBytes : Option ℤ

structure ReaderCache (C : Type) where
  config : CacheConfig
  entries : Entries C := ∅
  currentBytes : ℤ := 0

/-- `popitem` on an empty dictionary. -/
inductive CacheError where
  | keyError
deriving DecidableEq, Repr

variable {C : Type}

namespace ReaderCache

/-- `entry.inserted_at + ttl_seconds < now` -/
def expired (c : ReaderCache C) (now : ℚ) (entry : CacheEntry C) : Bool :=
  decide (entry.insertedAt + c.config.ttlSeconds < now)

/-- `get`: what is returned, and the cache after. An expired entry is dropped, and its
bytes stay counted. -/
def get (c : ReaderCache C) (now : ℚ) (key : Key) : Option C × ReaderCache C :=
  match c.entries.lookup key with
  | none => (none, c)
  | some entry =>
    if c.expired now entry then (none, { c with entries := c.entries.erase key })
    else (some entry.value,
      { c with entries := c.entries.insert key { entry with lastAccessedAt := now } })

section

variable [Blob C]

/-- `popitem(last=False)` with the bytes taken off the count; `none` is the `KeyError`. -/
def evictOldest (c : ReaderCache C) : Option (ReaderCache C) :=
  match c.entries.entries.getLast? with
  | none => none
  | some oldest => some { c with
      entries := c.entries.erase oldest.1
      currentBytes := c.currentBytes - Blob.size oldest.2.value }

/-- The loop of `put` over the byte budget, at most once for each entry. -/
def makeRoom (limit : ℤ) (value : C) : ℕ → ReaderCache C → ReaderCache C
  | 0, c => c
  | fuel + 1, c =>
    if limit < c.currentBytes + Blob.size value then
      match c.evictOldest with
      | none => c
      | some c' => makeRoom limit value fuel c'
    else c

/-- The byte budget, if there is one. -/
def fitBudget (c : ReaderCache C) (value : C) : ReaderCache C :=
  match c.config.maxBytes with
  | none => c
  | some limit => makeRoom limit value c.entries.entries.length c

def insertNew (c : ReaderCache C) (now : ℚ) (key : Key) (value : C) : ReaderCache C :=
  { c with
    entries := c.entries.insert key ⟨value, now, now⟩
    currentBytes := c.currentBytes + Blob.size value }

def put (now : ℚ) (key : Key) (value : C) : Eff (ReaderCache C) CacheError Unit := do
  let c ← MonadState.get
  match c.entries.lookup key with
  | some old =>
    set { c with
      entries := c.entries.insert key ⟨value, now, now⟩
      currentBytes := c.currentBytes - Blob.size old.value + Blob.size value }
  | none =>
    let c := c.fitBudget value
    set c
    if c.config.capacity ≤ c.entries.entries.length then
      match c.evictOldest with
      | none => throw .keyError
      | some c' => set (c'.insertNew now key value)
    else set (c.insertNew now key value)

end

/-! ## what is cached -/

/-- The bytes cached under a key, expired or not. -/
def value? (c : ReaderCache C) (key : Key) : Option C := (c.entries.lookup key).map (·.value)

/-- The bytes a lookup at `now` can return. -/
def fresh (c : ReaderCache C) (now : ℚ) (key : Key) : Option C :=
  match c.entries.lookup key with
  | none => none
  | some entry => if c.expired now entry then none else some entry.value

/-- `c'` has the settings of `c`, and only entries of `c`. -/
structure Within (c c' : ReaderCache C) : Prop where
  config : c'.config = c.config
  value? : ∀ key v, c'.value? key = some v → c.value? key = some v

variable {c c' c'' : ReaderCache C} {now later : ℚ} {key k : Key} {value v : C}

theorem Within.refl (c : ReaderCache C) : Within c c := ⟨rfl, fun _ _ h => h⟩

theorem Within.trans (h : Within c c') (h' : Within c' c'') : Within c c'' :=
  ⟨h'.config.trans h.config, fun key v hv => h.value? key v (h'.value? key v hv)⟩

theorem value?_of_fresh (h : c.fresh now key = some v) : c.value? key = some v := by
  unfold fresh at h
  unfold ReaderCache.value?
  cases hlookup : c.entries.lookup key with
  | none => rw [hlookup] at h; cases h
  | some entry =>
    simp only [hlookup] at h
    split at h
    · cases h
    · exact h

theorem value?_erase (h : c'.entries = c.entries.erase key) (hv : c'.value? k = some v) :
    c.value? k = some v := by
  unfold ReaderCache.value? at hv ⊢
  rw [h] at hv
  by_cases hk : k = key
  · subst hk
    simp [AList.lookup_erase] at hv
  · rwa [AList.lookup_erase_ne hk] at hv

/-- A key is added or keeps its bytes. -/
theorem value?_insert {entry : CacheEntry C} (h : c'.entries = c.entries.insert key entry)
    (hv : c'.value? k = some v) : k = key ∧ v = entry.value ∨ c.value? k = some v := by
  unfold ReaderCache.value? at hv ⊢
  rw [h] at hv
  by_cases hk : k = key
  · subst hk
    rw [AList.lookup_insert] at hv
    exact Or.inl ⟨rfl, (Option.some.inj hv).symm⟩
  · rw [AList.lookup_insert_ne hk] at hv
    exact Or.inr hv

/-! ## get -/

theorem get_fst (c : ReaderCache C) (now : ℚ) (key : Key) :
    (c.get now key).1 = c.fresh now key := by
  unfold get fresh
  cases c.entries.lookup key with
  | none => rfl
  | some entry =>
    dsimp only
    split <;> rfl

theorem within_get (c : ReaderCache C) (now : ℚ) (key : Key) : Within c (c.get now key).2 := by
  unfold get
  cases hlookup : c.entries.lookup key with
  | none => exact Within.refl c
  | some entry =>
    dsimp only
    split
    · exact ⟨rfl, fun k v hv => value?_erase rfl hv⟩
    · refine ⟨rfl, fun k v hv => ?_⟩
      obtain ⟨rfl, rfl⟩ | hv := value?_insert rfl hv
      · unfold ReaderCache.value?
        rw [hlookup]
        rfl
      · exact hv

/-- A lookup drops only what no later lookup would return. -/
theorem fresh_get (h : now ≤ later) : (c.get now key).2.fresh later k = c.fresh later k := by
  unfold get
  cases hlookup : c.entries.lookup key with
  | none => rfl
  | some entry =>
    dsimp only
    by_cases hk : k = key
    · subst hk
      split
      case isTrue hexp =>
        have hlater : c.expired later entry = true :=
          decide_eq_true (lt_of_lt_of_le (of_decide_eq_true hexp) h)
        simp only [fresh, AList.lookup_erase, hlookup, hlater, if_true]
      case isFalse =>
        simp only [fresh, AList.lookup_insert, hlookup]
        rfl
    · split
      · simp only [fresh, AList.lookup_erase_ne hk]
        rfl
      · simp only [fresh, AList.lookup_insert_ne hk]
        rfl

/-! ## put -/

/-- A cache without room for one entry has none. -/
def Roomed (c : ReaderCache C) : Prop := c.config.capacity ≤ 0 → c.entries.entries = []

theorem lookup_of_empty (h : c.entries.entries = []) : c.entries.lookup key = none := by
  unfold AList.lookup
  rw [h]
  rfl

theorem entries_eq_nil (h : ∀ key, c.value? key = none) : c.entries.entries = [] := by
  cases hentries : c.entries.entries with
  | nil => rfl
  | cons x rest =>
    have hmem : x.1 ∈ c.entries := by
      show x.1 ∈ c.entries.entries.keys
      rw [hentries]
      exact List.mem_cons_self
    have hnone := h x.1
    unfold ReaderCache.value? at hnone
    rw [Option.map_eq_none_iff, AList.lookup_eq_none] at hnone
    exact absurd hmem hnone

theorem Roomed.within (hc : c.Roomed) (h : Within c c') : c'.Roomed := by
  intro hle
  have hempty := hc (h.config ▸ hle)
  refine entries_eq_nil fun key => Option.eq_none_iff_forall_ne_some.mpr fun v hv => ?_
  have hv' := h.value? key v hv
  unfold ReaderCache.value? at hv'
  simp [lookup_of_empty hempty] at hv'

/-- What a `put` that returns leaves. -/
structure Stored (c : ReaderCache C) (key : Key) (value : C) (c' : ReaderCache C) : Prop where
  config : c'.config = c.config
  value? : ∀ k v, c'.value? k = some v → k = key ∧ v = value ∨ c.value? k = some v

theorem Within.stored (h : Within c c') (h' : Stored c' key value c'') : Stored c key value c'' :=
  ⟨h'.config.trans h.config, fun k v hv => (h'.value? k v hv).imp_right (h.value? k v)⟩

theorem Roomed.fresh (hc : c.Roomed) (hle : c.config.capacity ≤ 0) : c.fresh now key = none := by
  unfold ReaderCache.fresh
  rw [lookup_of_empty (hc hle)]

theorem Roomed.stored (h : Stored c key value c') (hpos : 0 < c.config.capacity) : c'.Roomed :=
  fun hle => absurd hpos (not_lt.mpr (h.config ▸ hle))

section

variable [Blob C]

theorem within_evictOldest (h : c.evictOldest = some c') : Within c c' := by
  unfold evictOldest at h
  cases hlast : c.entries.entries.getLast? with
  | none => rw [hlast] at h; cases h
  | some oldest =>
    rw [hlast] at h
    cases h
    exact ⟨rfl, fun k v hv => value?_erase rfl hv⟩

theorem evictOldest_eq_none : c.evictOldest = none ↔ c.entries.entries = [] := by
  unfold evictOldest
  rw [← List.getLast?_eq_none_iff]
  cases c.entries.entries.getLast? <;> simp

theorem within_makeRoom (limit : ℤ) (value : C) (fuel : ℕ) (c : ReaderCache C) :
    Within c (makeRoom limit value fuel c) := by
  induction fuel generalizing c with
  | zero => exact Within.refl c
  | succ fuel ih =>
    unfold makeRoom
    split
    · cases hevict : c.evictOldest with
      | none => exact Within.refl c
      | some c' => exact (within_evictOldest hevict).trans (ih c')
    · exact Within.refl c

theorem within_fitBudget (c : ReaderCache C) (value : C) : Within c (c.fitBudget value) := by
  unfold fitBudget
  split
  · exact Within.refl c
  · exact within_makeRoom _ _ _ c

theorem fitBudget_of_empty (h : c.entries.entries = []) : c.fitBudget value = c := by
  unfold fitBudget
  split
  · rfl
  · rw [h]
    rfl

theorem Within.insertNew (h : Within c c') : Stored c key value (c'.insertNew now key value) := by
  refine ⟨h.config, fun k v hv => ?_⟩
  refine (value?_insert (c := c') rfl hv).imp id (h.value? k v)

/-- **What `put` does.** With room for an entry it returns and stores the value; a cache
without room for one is left as it was. -/
theorem wp_put (hc : c.Roomed) :
    Eff.wp (put now key value) (fun r c' =>
      (0 < c.config.capacity ∧ r = .ok () ∧ Stored c key value c') ∨
        (c.config.capacity ≤ 0 ∧ r = .error .keyError ∧ c' = c)) c := by
  simp only [put, Eff.wp_bind, Eff.wp_get]
  cases hlookup : c.entries.lookup key with
  | some old =>
    have hpos : 0 < c.config.capacity := by
      by_contra hnot
      simp [lookup_of_empty (hc (not_lt.mp hnot))] at hlookup
    simp only [Eff.wp_set]
    exact Or.inl ⟨hpos, trivial, rfl, fun k v hv => value?_insert rfl hv⟩
  | none =>
    have hfit := within_fitBudget c value
    simp only [Eff.wp_bind, Eff.wp_set]
    by_cases hpos : 0 < c.config.capacity
    · split
      case isTrue hfull =>
        cases hevict : (c.fitBudget value).evictOldest with
        | none =>
          -- full and nothing to evict: there is no capacity
          rw [evictOldest_eq_none.mp hevict, hfit.config] at hfull
          exact absurd hpos (not_lt.mpr (by simpa using hfull))
        | some c' =>
          have hin := hfit.trans (within_evictOldest hevict)
          exact Or.inl ⟨hpos, rfl, hin.insertNew⟩
      case isFalse => exact Or.inl ⟨hpos, rfl, hfit.insertNew⟩
    · have hempty := hc (not_lt.mp hpos)
      rw [fitBudget_of_empty hempty, if_pos (by rw [hempty]; simpa using not_lt.mp hpos),
        evictOldest_eq_none.mpr hempty]
      exact Or.inr ⟨not_lt.mp hpos, rfl, rfl⟩

end

end ReaderCache

end MctraderData.Tier
