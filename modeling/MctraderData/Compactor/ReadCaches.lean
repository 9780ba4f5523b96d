import MctraderData.Compactor.Tiers

/-!
# mctrader-data — the stream cache of a compaction

Model of `compactor/_nas_stream_cache.py`, which keeps the first downloads of a compaction up
to a threshold and counts the bytes it holds beside the map that holds them.

## Results

* `streamCache_transparent` — every stream handed out is at the start of the object's bytes,
  whatever was done to the earlier ones, and the threshold is kept.
-/

namespace MctraderData.Compactor

variable {C : Type} [Blob C]

/-- A `BytesIO` -/
structure BytesStream (C : Type) where
  bytes : C
  position : Nat := 0

/-- What `get_or_fetch` keeps of a download, under any threshold. -/
def StreamCache.storeWithin (threshold : ℤ) (s : StreamCache C) (key : Key) (data : C) :
    StreamCache C :=
  if (s.total + Blob.size data : ℤ) ≤ threshold then
    ⟨(key, data) :: s.cache, s.total + Blob.size data⟩
  else s

theorem storeWithin_cacheThreshold (s : StreamCache C) (key : Key) (data : C) :
    s.storeWithin cacheThreshold key data = s.store key data := by
  unfold StreamCache.storeWithin StreamCache.store
  norm_cast

/-- `get_or_fetch`, where `fetched` is the answer of `get_streaming`; `none` is its error, which
is raised. -/
def StreamCache.getOrFetch (threshold : ℤ) (fetched : Option C) (s : StreamCache C) (key : Key) :
    Option (BytesStream C) × StreamCache C :=
  match s.cache.lookup key with
  | some cached => (some ⟨cached, 0⟩, s)
  | none => match fetched with
    | none => (none, s)
    | some data => (some ⟨data, 0⟩, s.storeWithin threshold key data)

/-- A cache with the streams it has handed out, oldest first. -/
structure StreamSession (C : Type) where
  cache : StreamCache C := .empty
  streams : List (BytesStream C) := []

/-- A call, answered by the NAS or not, or any use of an earlier stream. -/
inductive StreamUse (C : Type) where
  | getOrFetch (key : Key) (answered : Bool)
  | consume (stream : Nat) (left : BytesStream C)

variable (threshold : ℤ) (objects : Key → C)

def StreamSession.step (s : StreamSession C) : StreamUse C → StreamSession C
  | .getOrFetch key answered =>
    let r := s.cache.getOrFetch threshold (if answered then some (objects key) else none) key
    ⟨r.2, s.streams ++ r.1.toList⟩
  | .consume stream left => { s with streams := s.streams.set stream left }

/-- The cache holds bytes of the objects, counts them and keeps to the threshold from the
first one on. -/
structure CacheSound (s : StreamCache C) : Prop where
  total : s.total = (s.cache.map fun e => Blob.size e.2).sum
  gate : s.cache = [] ∨ (s.total : ℤ) ≤ threshold
  bytes : ∀ e ∈ s.cache, e.2 = objects e.1

variable {threshold objects}

theorem CacheSound.getOrFetch {s : StreamCache C} (h : CacheSound threshold objects s)
    (key : Key) (answered : Bool) : CacheSound threshold objects
      (s.getOrFetch threshold (if answered then some (objects key) else none) key).2 := by
  unfold StreamCache.getOrFetch
  split
  · exact h
  · cases answered with
    | false => exact h
    | true =>
      simp only [if_pos, StreamCache.storeWithin]
      split
      · rename_i hle
        refine ⟨?_, Or.inr (by exact_mod_cast hle), ?_⟩
        · simp [h.total, Nat.add_comm]
        · exact List.forall_mem_cons.mpr ⟨rfl, h.bytes⟩
      · exact h

theorem cacheSound_foldl {s : StreamSession C} (h : CacheSound threshold objects s.cache)
    (uses : List (StreamUse C)) : CacheSound threshold objects
      (uses.foldl (StreamSession.step threshold objects) s).cache := by
  induction uses generalizing s with
  | nil => exact h
  | cons use rest ih =>
    cases use with
    | getOrFetch key answered => exact ih (h.getOrFetch key answered)
    | consume stream left => exact ih h

/-- After any uses of a session, a call returns the bytes of the object from their start, or the
error of the NAS for an object that is not cached; the cached bytes are counted and, if the
threshold is not negative, within it. Below zero nothing is cached. -/
theorem streamCache_transparent (threshold : ℤ) (objects : Key → C) (uses : List (StreamUse C)) :
    let s := (uses.foldl (StreamSession.step threshold objects) {}).cache
    s.total = (s.cache.map fun e => Blob.size e.2).sum ∧
      (0 ≤ threshold → s.total ≤ threshold) ∧ (threshold < 0 → s.cache = []) ∧
      ∀ key, (s.getOrFetch threshold (some (objects key)) key).1 = some ⟨objects key, 0⟩ ∧
        (s.getOrFetch threshold none key).1 ∈ [none, some ⟨objects key, 0⟩] := by
  intro s
  have h : CacheSound threshold objects s :=
    cacheSound_foldl ⟨rfl, Or.inl rfl, List.forall_mem_nil _⟩ uses
  have hempty : s.cache = [] → s.total = 0 := fun hnil => by simp [h.total, hnil]
  refine ⟨h.total, fun hthreshold => ?_, fun hneg => ?_, ?_⟩
  · rcases h.gate with hnil | hle
    · simpa [hempty hnil] using hthreshold
    · exact hle
  · -- a total is never negative, so only the empty cache is left
    exact h.gate.resolve_right fun hle => absurd (Int.natCast_nonneg s.total) (by omega)
  intro key
  unfold StreamCache.getOrFetch
  cases hc : s.cache.lookup key with
  | none => simp
  | some cached =>
    obtain ⟨l₁, l₂, hcache, -⟩ := List.lookup_eq_some_iff.mp hc
    have hbytes : cached = objects key := h.bytes (key, cached) (by simp [hcache])
    simp [hbytes]

end MctraderData.Compactor
