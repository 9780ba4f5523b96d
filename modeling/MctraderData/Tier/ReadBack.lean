import MctraderData.Tier.Reader

/-!
# mctrader-data — what a tier read returns

A read should answer with the object stored for its path. Two things stand between: the
reader of the tier builds a key of its own from the path (`readerKey`; in L1 without the
exchange and the file name), and the facade takes a reader's `hit_cache` for a failure.

The invariant of every run of reads is `Sound`: what is cached under a key is what the
readers find for it, and in L1 its ETag is on record. `Outcome` says what one call can do
in such a state.

## Main results

* `PartitionPath.readerKey_readerKey` — a reader's key is read under itself, so that one
  cache can serve the facade and both readers.
* `wp_read`            — one call: its outcome, and that the state stays sound.
* `read_returns_iff`   — a read returns the object of its path exactly when it reads true.
-/

namespace MctraderData.Tier

open Lib Eff
open Nas
open Compactor (twoDigits)

/-! ## partition paths and their keys -/

/-- A well-formed partition path: one of the three tiers, an exchange, a symbol and a
date, components that are a bare name or `label=value`, and hours of two digits. -/
structure PartitionPath where
  path : Path
  tier : extractTier path ∈ [some "L1", some "L2", some "L3"]
  named : ∀ label ∈ ["exchange", "symbol", "date"],
    ∃ part ∈ path, (hiveValue label part).getD "" ≠ ""
  simple : ∀ part ∈ path, part.toList.count '=' ≤ 1
  hours : ∀ part ∈ path, ∀ v ∈ hiveValue "hour" part, ∃ h < 24, v = twoDigits h

variable {C : Type}

/-- The object of a path: L1 objects have no node level; in the cold tiers a path
without one names the object of node `DEFAULT`. -/
def objectKey (path : Path) : Key :=
  if extractTier path = some "L1" then path
  else if isLegacyNode path then injectNodeDefault path else path

/-- The key under which the reader of a path's tier looks for it. -/
def readerKey (cfg : ReaderConfig C) (path : Path) : Key :=
  if extractTier path = some "L1" then (l1Partition path).buildKey
  else buildNasObjectKey cfg path

theorem hiveValue_self (label v : String) : hiveValue label (label ++ "=" ++ v) = some v := by
  unfold hiveValue
  rw [String.toList_append (s := label ++ "="), if_pos (List.isPrefixOf_iff_prefix.mpr
    (List.prefix_append _ _)), List.drop_left, String.ofList_toList]

theorem eq_of_hiveValue {label part v : String} (h : hiveValue label part = some v) :
    part = label ++ "=" ++ v := by
  unfold hiveValue at h
  split at h
  case isFalse => cases h
  case isTrue hpre =>
    obtain ⟨rest, hrest⟩ := List.isPrefixOf_iff_prefix.mp hpre
    cases h
    rw [← hrest, List.drop_left]
    apply String.toList_injective
    rw [String.toList_append, String.toList_ofList, hrest]

/-- A bare name has no Hive value. -/
theorem hiveValue_of_bare {label part : String} (h : '=' ∉ part.toList) :
    hiveValue label part = none := by
  cases hv : hiveValue label part with
  | none => rfl
  | some v =>
    refine absurd ?_ h
    rw [eq_of_hiveValue hv]
    simp

/-- The value of a component with one `=` has none. -/
theorem bare_of_hiveValue {label part v : String} (hone : part.toList.count '=' ≤ 1)
    (h : hiveValue label part = some v) : '=' ∉ v.toList := by
  intro hmem
  have hpos := List.count_pos_iff.mpr hmem
  rw [eq_of_hiveValue h] at hone
  simp only [String.toList_append, List.count_append] at hone
  have hlit : "=".toList.count '=' = 1 := by decide
  omega

-- cold keys

theorem findSome?_insertIdx {α β : Type} (f : α → Option β) {a : α} (ha : f a = none)
    (l : List α) (i : ℕ) : (l.insertIdx i a).findSome? f = l.findSome? f := by
  induction l generalizing i with
  | nil => cases i <;> simp [List.insertIdx_zero, ha]
  | cons x l ih => cases i <;> simp [ha, List.findSome?_cons, ih]

/-- A node component is added, whatever the shape of the path. -/
theorem injectNodeDefault_eq (path : Path) :
    ∃ i ≤ path.length, injectNodeDefault path = path.insertIdx i "node=DEFAULT" := by
  unfold injectNodeDefault
  split
  case h_1 i hi =>
    obtain ⟨hlt, -⟩ := List.findIdx?_eq_some_iff_getElem.mp hi
    exact ⟨i + 1, hlt, rfl⟩
  case h_2 =>
    split
    · exact ⟨path.length - 1, Nat.sub_le _ _, rfl⟩
    · exact ⟨path.length, le_rfl, by rw [List.insertIdx_length_self]⟩

theorem extractTier_injectNodeDefault (path : Path) :
    extractTier (injectNodeDefault path) = extractTier path := by
  obtain ⟨i, -, h⟩ := injectNodeDefault_eq path
  rw [h]
  exact findSome?_insertIdx _ (by decide) path i

theorem isLegacyNode_injectNodeDefault (path : Path) :
    isLegacyNode (injectNodeDefault path) = false := by
  obtain ⟨i, hi, h⟩ := injectNodeDefault_eq path
  unfold isLegacyNode
  rw [Bool.not_eq_false', List.any_eq_true, h]
  exact ⟨"node=DEFAULT", (List.mem_insertIdx hi).mpr (Or.inl rfl), by decide⟩

variable {cfg : ReaderConfig C} {path : Path}

/-- Building the key of a cold key changes nothing. -/
theorem buildNasObjectKey_idem (cfg : ReaderConfig C) (path : Path) :
    buildNasObjectKey cfg (buildNasObjectKey cfg path) = buildNasObjectKey cfg path := by
  by_cases h : (isLegacyNode path && cfg.partitionNormalization) = true
  · have hkey : buildNasObjectKey cfg path = injectNodeDefault path := if_pos h
    rw [hkey]
    unfold buildNasObjectKey
    rw [isLegacyNode_injectNodeDefault]
    rfl
  · have hkey : buildNasObjectKey cfg path = path := if_neg h
    rw [hkey, hkey]

theorem extractTier_buildNasObjectKey (cfg : ReaderConfig C) (path : Path) :
    extractTier (buildNasObjectKey cfg path) = extractTier path := by
  unfold buildNasObjectKey
  split
  · exact extractTier_injectNodeDefault path
  · rfl

-- L1 keys

/-- Values the L1 key can be read back from. -/
structure L1Partition.Clean (p : L1Partition) : Prop where
  symbol : '=' ∉ p.symbol.toList
  date : '=' ∉ p.date.toList
  dashes : '-' ∉ p.date.toList
  hour : p.hour < 24

theorem dashes_withoutDashes (text : String) : '-' ∉ (withoutDashes text).toList := by
  unfold withoutDashes
  rw [String.toList_ofList, List.mem_filter]
  rintro ⟨-, h⟩
  exact absurd h (by decide)

theorem withoutDashes_eq {text : String} (h : '-' ∉ text.toList) : withoutDashes text = text := by
  unfold withoutDashes
  rw [List.filter_eq_self.mpr, String.ofList_toList]
  intro c hc
  exact decide_eq_true fun heq => h (heq ▸ hc)

theorem int_twoDigits : ∀ h < 24, int (twoDigits h).toList = some h := by decide

theorem bare_twoDigits : ∀ h < 24, '=' ∉ (twoDigits h).toList := by decide

theorem clean_scanPart {found : L1Partition} {part : String} (hfound : found.Clean)
    (hone : part.toList.count '=' ≤ 1)
    (hhour : ∀ v ∈ hiveValue "hour" part, ∃ h < 24, v = twoDigits h) :
    (scanPart found part).Clean := by
  unfold scanPart
  split
  case h_1 symbol hsymbol => exact { hfound with symbol := bare_of_hiveValue hone hsymbol }
  case h_2 =>
    split
    case h_1 date hdate =>
      refine { hfound with date := fun hmem => ?_, dashes := dashes_withoutDashes date }
      unfold withoutDashes at hmem
      rw [String.toList_ofList] at hmem
      exact bare_of_hiveValue hone hdate (List.mem_of_mem_filter hmem)
    case h_2 =>
      split
      case h_1 v hv =>
        obtain ⟨h, hlt, rfl⟩ := hhour v hv
        refine { hfound with hour := ?_ }
        rw [int_twoDigits h hlt]
        exact hlt
      case h_2 => exact hfound

theorem clean_foldl_scanPart {parts : List String} {found : L1Partition} (hfound : found.Clean)
    (hone : ∀ part ∈ parts, part.toList.count '=' ≤ 1)
    (hhour : ∀ part ∈ parts, ∀ v ∈ hiveValue "hour" part, ∃ h < 24, v = twoDigits h) :
    (parts.foldl scanPart found).Clean := by
  induction parts generalizing found with
  | nil => exact hfound
  | cons part parts ih =>
    have hstep := clean_scanPart hfound (hone part List.mem_cons_self)
      (hhour part List.mem_cons_self)
    exact ih hstep (fun q hq => hone q (List.mem_cons_of_mem part hq))
      fun q hq => hhour q (List.mem_cons_of_mem part hq)

theorem PartitionPath.clean (p : PartitionPath) : (l1Partition p.path).Clean := by
  unfold l1Partition
  dsimp only
  split
  · exact clean_foldl_scanPart ⟨by decide, by decide, by decide, by decide⟩ p.simple p.hours
  · exact ⟨by decide, by decide, by decide, by decide⟩

theorem named_l1Partition (path : Path) :
    (l1Partition path).symbol ≠ "" ∧ (l1Partition path).date ≠ "" := by
  unfold l1Partition
  dsimp only
  split
  case isTrue h => exact h
  case isFalse => exact ⟨by decide, by decide⟩

theorem extractTier_buildKey (p : L1Partition) : extractTier p.buildKey = some "L1" := by
  unfold extractTier L1Partition.buildKey
  rfl

/-- A component has no value under another label. -/
theorem hiveValue_other {label l v : String} (hne : l ≠ label)
    (hlabel : '=' ∉ l.toList) (hv : '=' ∉ v.toList) :
    hiveValue label (l ++ "=" ++ v) = none := by
  cases hsome : hiveValue label (l ++ "=" ++ v) with
  | none => rfl
  | some v' =>
    have heq := congrArg String.toList (eq_of_hiveValue hsome)
    simp only [String.toList_append, List.append_assoc] at heq
    have hsplit : l.toList ++ '=' :: v.toList = label.toList ++ '=' :: v'.toList := heq
    rw [List.append_cons_inj_of_notMem hlabel hv] at hsplit
    exact absurd (String.toList_injective hsplit.1) hne

/-- The L1 reader finds its own key under that key. -/
theorem l1Partition_buildKey {p : L1Partition} (hclean : p.Clean) (hsymbol : p.symbol ≠ "")
    (hdate : p.date ≠ "") : l1Partition p.buildKey = p := by
  have hhour := bare_twoDigits p.hour hclean.hour
  have hfile : '=' ∉
      (p.symbol ++ "_" ++ p.date ++ "_" ++ twoDigits p.hour ++ ".parquet").toList := by
    simp [hclean.symbol, hclean.date, hhour]
  have hs : hiveValue "symbol" ("symbol=" ++ p.symbol) = some p.symbol := hiveValue_self _ _
  have hd : hiveValue "symbol" ("date=" ++ p.date) = none ∧
      hiveValue "date" ("date=" ++ p.date) = some p.date :=
    ⟨hiveValue_other (l := "date") (by decide) (by decide) hclean.date, hiveValue_self _ _⟩
  have hh : hiveValue "symbol" ("hour=" ++ twoDigits p.hour) = none ∧
      hiveValue "date" ("hour=" ++ twoDigits p.hour) = none ∧
      hiveValue "hour" ("hour=" ++ twoDigits p.hour) = some (twoDigits p.hour) :=
    ⟨hiveValue_other (l := "hour") (by decide) (by decide) hhour,
      hiveValue_other (l := "hour") (by decide) (by decide) hhour, hiveValue_self _ _⟩
  have hscan : p.buildKey.foldl scanPart ⟨"", "", 0⟩ = p := by
    calc p.buildKey.foldl scanPart ⟨"", "", 0⟩
        = scanPart (scanPart (scanPart (scanPart ⟨"", "", 0⟩ ("symbol=" ++ p.symbol))
            ("date=" ++ p.date)) ("hour=" ++ twoDigits p.hour))
            (p.symbol ++ "_" ++ p.date ++ "_" ++ twoDigits p.hour ++ ".parquet") := rfl
      _ = p := by
        simp only [scanPart, hs, hd, hh, hiveValue_of_bare hfile, withoutDashes_eq hclean.dashes,
          int_twoDigits p.hour hclean.hour, Option.getD_some]
  unfold l1Partition
  rw [hscan, if_pos ⟨hsymbol, hdate⟩]

section

variable (cfg : ReaderConfig C)

theorem readerKey_of_l1 (h : extractTier path = some "L1") :
    readerKey cfg path = (l1Partition path).buildKey := if_pos h

theorem readerKey_of_cold (h : extractTier path ≠ some "L1") :
    readerKey cfg path = buildNasObjectKey cfg path := if_neg h

theorem extractTier_readerKey (path : Path) :
    extractTier (readerKey cfg path) = extractTier path := by
  by_cases h : extractTier path = some "L1"
  · rw [readerKey_of_l1 cfg h, extractTier_buildKey, h]
  · rw [readerKey_of_cold cfg h, extractTier_buildNasObjectKey]

/-- The key of a reader is read under itself. -/
theorem PartitionPath.readerKey_readerKey (p : PartitionPath) :
    readerKey cfg (readerKey cfg p.path) = readerKey cfg p.path := by
  have htier := extractTier_readerKey cfg p.path
  by_cases h : extractTier p.path = some "L1"
  · obtain ⟨hsymbol, hdate⟩ := named_l1Partition p.path
    rw [readerKey_of_l1 cfg (htier.trans h), readerKey_of_l1 cfg h,
      l1Partition_buildKey p.clean hsymbol hdate]
  · rw [readerKey_of_cold cfg (htier.symm ▸ h), readerKey_of_cold cfg h,
      buildNasObjectKey_idem]

end

/-! ## the cache holds what the bucket holds -/

variable {key : Key}

/-- The state after a lookup. -/
def TierState.looked (s : TierState C) (now : ℚ) (key : Key) : TierState C :=
  { s with cache := (s.cache.get now key).2 }

theorem wp_cacheGet {s : TierState C} {now : ℚ}
    {Q : Except CacheError (Option C) → TierState C → Prop} :
    wp (cacheGet now key) Q s ↔ Q (.ok (s.cache.fresh now key)) (s.looked now key) := by
  simp only [cacheGet, wp_bind, wp_get, wp_set, wp_pure, ReaderCache.get_fst, TierState.looked]

variable [Blob C] {objects : AList fun _ : Key => Obj C} {s s' : TierState C} {scene : Scene C}

theorem wp_cachePut {now : ℚ} {value : C} {Q : Except CacheError Unit → TierState C → Prop}
    (hs : s.cache.Roomed)
    (hok : ∀ c, 0 < s.cache.config.capacity → ReaderCache.Stored s.cache key value c →
      Q (.ok ()) { s with cache := c })
    (hraise : s.cache.config.capacity ≤ 0 → Q (.error .keyError) s) :
    wp (cachePut now key value) Q s := by
  refine wp_within.mpr (wp_mono (ReaderCache.wp_put hs) ?_)
  rintro r c (⟨hpos, rfl, hstored⟩ | ⟨hle, rfl, rfl⟩)
  · exact hok c hpos hstored
  · exact hraise hle

/-- `v` is what the readers find for `k`, with its ETag on record in tier L1. -/
def Backed (cfg : ReaderConfig C) (objects : AList fun _ : Key => Obj C)
    (etags : AList fun _ : Key => String) (k : Key) (v : C) : Prop :=
  ∃ o, objects.lookup (readerKey cfg k) = some o ∧ o.body = v ∧
    (extractTier k = some "L1" → etags.lookup (readerKey cfg k) = some o.etag)

/-- What reads alone maintain. -/
structure Sound (cfg : ReaderConfig C) (objects : AList fun _ : Key => Obj C)
    (s : TierState C) : Prop where
  backed : ∀ k v, s.cache.value? k = some v → Backed cfg objects s.etags k v
  roomed : s.cache.Roomed
  known : s.dr.Known

/-- An ETag is recorded for the object it belongs to. -/
theorem Backed.tag {etags : AList fun _ : Key => String} {k : Key} {v : C} {o : Obj C}
    (h : Backed cfg objects etags k v) (ho : objects.lookup key = some o) :
    Backed cfg objects (etags.insert key o.etag) k v := by
  obtain ⟨o', ho', hbody, htag⟩ := h
  refine ⟨o', ho', hbody, fun htier => ?_⟩
  by_cases hkey : readerKey cfg k = key
  · rw [hkey] at ho' ⊢
    rw [ho] at ho'
    cases ho'
    exact AList.lookup_insert _
  · rw [AList.lookup_insert_ne hkey]
    exact htag htier

section

variable (hs : Sound cfg objects s)
include hs

theorem Sound.within {c : ReaderCache C} (h : ReaderCache.Within s.cache c) :
    Sound cfg objects { s with cache := c } where
  backed k v hv := hs.backed k v (h.value? k v hv)
  roomed := hs.roomed.within h
  known := hs.known

/-- A `put` of what the readers find. -/
theorem Sound.stored {c : ReaderCache C} {value : C} (hpos : 0 < s.cache.config.capacity)
    (h : ReaderCache.Stored s.cache key value c) (hvalue : Backed cfg objects s.etags key value) :
    Sound cfg objects { s with cache := c } where
  backed k v hv := by
    obtain ⟨rfl, rfl⟩ | hv := h.value? k v hv
    · exact hvalue
    · exact hs.backed k v hv
  roomed := ReaderCache.Roomed.stored h hpos
  known := hs.known

theorem Sound.tag {o : Obj C} (ho : objects.lookup key = some o) :
    Sound cfg objects { s with etags := s.etags.insert key o.etag } where
  backed k v hv := (hs.backed k v hv).tag ho
  roomed := hs.roomed
  known := hs.known

theorem Sound.updateDr {f : DrMode → DrMode} (hf : s.dr.Known → (f s.dr).Known) :
    Sound cfg objects { s with dr := f s.dr } where
  backed := hs.backed
  roomed := hs.roomed
  known := hf hs.known

end

/-! ## what the reader of a tier does -/

/-- The reader of the path's tier goes to the NAS, if that has `o`: no copy is fresh, or in L1
one with another ETag is. -/
def Asks (cfg : ReaderConfig C) (scene : Scene C) (path : Path) (s : TierState C) (o : Obj C) :
    Prop :=
  s.cache.fresh scene.times.readerLookup (readerKey cfg path) = none ∨
    extractTier path = some "L1" ∧ o.etag ≠ "" ∧
      o.etag ≠ (s.etags.lookup (readerKey cfg path)).getD ""

section

variable (cfg : ReaderConfig C) (objects : AList fun _ : Key => Obj C) (scene : Scene C)
  (path : Path) (s : TierState C)

/-- What the reader of a tier answers in any state, and the state it leaves. -/
inductive ReaderCourse : Except CacheError (ReaderResult C) → TierState C → Prop where
  | cached {r : ReaderResult C} :
      s.cache.fresh scene.times.readerLookup (readerKey cfg path) ≠ none →
      (∀ o, objects.lookup (readerKey cfg path) = some o → ¬ Asks cfg scene path s o) →
      r.status = .hitCache →
      ReaderCourse (.ok r) (s.looked scene.times.readerLookup (readerKey cfg path))
  | missing {r : ReaderResult C} :
      s.cache.fresh scene.times.readerLookup (readerKey cfg path) = none →
      objects.lookup (readerKey cfg path) = none → r.status = .notFound →
      ReaderCourse (.ok r) (s.looked scene.times.readerLookup (readerKey cfg path))
  | fetched {o : Obj C} {r : ReaderResult C} {c : ReaderCache C}
      {etags : AList fun _ : Key => String} : objects.lookup (readerKey cfg path) = some o →
      Asks cfg scene path s o → 0 < s.cache.config.capacity → nasSuccess r.status = true →
      r.data = o.body → ReaderCache.Stored s.cache (readerKey cfg path) o.body c →
      (etags = if extractTier path = some "L1" then s.etags.insert (readerKey cfg path) o.etag
        else s.etags) → ReaderCourse (.ok r) { s with cache := c, etags := etags }
  | raised {o : Obj C} :
      s.cache.fresh scene.times.readerLookup (readerKey cfg path) = none →
      objects.lookup (readerKey cfg path) = some o → s.cache.config.capacity ≤ 0 →
      ReaderCourse (.error .keyError) (s.looked scene.times.readerLookup (readerKey cfg path))

end

section

variable (hroomed : s.cache.Roomed) (hclient : scene.client = some (serving objects))
include hroomed hclient

theorem wp_coldRead (htier : extractTier path ≠ some "L1") :
    wp (coldRead cfg scene path) (ReaderCourse cfg objects scene path s) s := by
  have hget := s.cache.within_get scene.times.readerLookup (readerKey cfg path)
  unfold coldRead
  rw [← readerKey_of_cold cfg htier]
  rw [wp_bind, wp_cacheGet]
  cases hfresh : s.cache.fresh scene.times.readerLookup (readerKey cfg path) with
  | some v =>
    refine .cached (hfresh.trans_ne nofun) (fun o _ => ?_) rfl
    rintro (hnone | hl1)
    · cases hfresh.symm.trans hnone
    · exact htier hl1.1
  | none =>
    simp only [hclient, serving]
    cases ho : objects.lookup (readerKey cfg path) with
    | none =>
      dsimp only
      exact .missing hfresh ho rfl
    | some o =>
      rw [wp_bind]
      refine wp_cachePut (hroomed.within hget) (fun c hpos hstored => ?_)
        fun hle => .raised hfresh ho (hget.config ▸ hle)
      refine .fetched ho (Or.inl hfresh) (hget.config ▸ hpos) ?_ rfl (hget.stored hstored)
        (if_neg htier).symm
      cases isLegacyNode path <;> rfl

/-- A GET of tier L1. -/
theorem wp_fetchFromNas {status : ReaderStatus} (htier : extractTier path = some "L1")
    (hstatus : nasSuccess status = true)
    (hasks : ∀ o, objects.lookup (readerKey cfg path) = some o → Asks cfg scene path s o)
    (hnone : objects.lookup (readerKey cfg path) = none →
      s.cache.fresh scene.times.readerLookup (readerKey cfg path) = none) :
    wp (fetchFromNas cfg scene (readerKey cfg path) status)
      (ReaderCourse cfg objects scene path s)
      (s.looked scene.times.readerLookup (readerKey cfg path)) := by
  have hget := s.cache.within_get scene.times.readerLookup (readerKey cfg path)
  unfold fetchFromNas
  simp only [hclient, serving]
  cases ho : objects.lookup (readerKey cfg path) with
  | none =>
    dsimp only
    exact .missing (hnone ho) ho rfl
  | some o =>
    rw [wp_bind]
    refine wp_cachePut (hroomed.within hget) (fun c hpos hstored => ?_) fun hle => ?_
    · exact .fetched ho (hasks o ho) (hget.config ▸ hpos) hstatus rfl (hget.stored hstored)
        (if_pos htier).symm
    · have hle : s.cache.config.capacity ≤ 0 := hget.config ▸ hle
      exact .raised (hroomed.fresh hle) ho hle

/-- An L1 read returns the cached copy unless its ETag is stale, and else asks the NAS. -/
theorem wp_readL1 (htier : extractTier path = some "L1") :
    wp (readL1 cfg scene path) (ReaderCourse cfg objects scene path s) s := by
  unfold readL1 l1Read
  rw [← readerKey_of_l1 cfg htier, wp_bind, wp_cacheGet]
  cases hfresh : s.cache.fresh scene.times.readerLookup (readerKey cfg path) with
  | none =>
    exact wp_fetchFromNas hroomed hclient htier rfl (fun _ _ => Or.inl hfresh) fun _ => hfresh
  | some v =>
    have hcached : s.cache.fresh scene.times.readerLookup (readerKey cfg path) ≠ none := by
      rw [hfresh]
      exact Option.some_ne_none v
    -- the ETag check fetches the object again, or leaves the copy to be returned
    have hstale : wp (refetchIfStale cfg scene (readerKey cfg path)) (fun r s' =>
        (∃ a, r = .ok (some a) ∧ ReaderCourse cfg objects scene path s (.ok a) s') ∨
        r = .ok none ∧ s' = s.looked scene.times.readerLookup (readerKey cfg path) ∧
          ∀ o, objects.lookup (readerKey cfg path) = some o → ¬ Asks cfg scene path s o)
        (s.looked scene.times.readerLookup (readerKey cfg path)) := by
      unfold refetchIfStale
      simp only [hclient, serving]
      cases ho : objects.lookup (readerKey cfg path) with
      | none =>
        refine Or.inr ⟨rfl, rfl, ?_⟩
        rintro o ⟨⟩
      | some o =>
        simp only [wp_bind, wp_get]
        split
        case isTrue hdiff =>
          have hasks : Asks cfg scene path s o := by
            refine Or.inr ⟨htier, hdiff.1, ?_⟩
            rcases hdiff.2 with hempty | hne
            · exact fun h => hdiff.1 (h.trans hempty)
            · exact hne
          refine wp_seq (wp_fetchFromNas hroomed hclient htier rfl ?_ ?_) ?_ ?_
          · rintro o' ho'
            cases ho.symm.trans ho'
            exact hasks
          · exact fun hnone => absurd (ho.symm.trans hnone) (Option.some_ne_none o)
          · exact fun a s' h => Or.inl ⟨a, rfl, h⟩
          · rintro e s' (_ | _ | _ | ⟨hnone, -, -⟩)
            exact absurd hnone hcached
        case isFalse hsame =>
          refine Or.inr ⟨rfl, rfl, ?_⟩
          rintro o' ⟨⟩ (hnone | ⟨-, hne, hdiff⟩)
          · exact hcached hnone
          · exact hsame ⟨hne, Or.inr hdiff⟩
    refine wp_seq (wp_orNone hstale) ?_ ?_
    · rintro r s' ⟨_, ⟨a, rfl, h⟩ | ⟨rfl, rfl, hnot⟩, ⟨⟩⟩
      · exact h
      · exact .cached hcached hnot rfl
    · rintro e s' ⟨_, -, ⟨⟩⟩

theorem wp_readTier {tier : String} (htier : extractTier path = some tier) :
    wp (readTier cfg scene path tier) (ReaderCourse cfg objects scene path s) s := by
  unfold readTier
  split
  case isTrue h => exact wp_readL1 hroomed hclient (h ▸ htier)
  case isFalse h =>
    exact wp_coldRead hroomed hclient fun h' => h (Option.some.inj (htier.symm.trans h'))

end

section

variable {r : Except CacheError (ReaderResult C)}

/-- A reader leaves the breaker and the settings alone. -/
theorem ReaderCourse.frame (h : ReaderCourse cfg objects scene path s r s') :
    s'.dr = s.dr ∧ s'.cache.config = s.cache.config := by
  have hget := (s.cache.within_get scene.times.readerLookup (readerKey cfg path)).config
  cases h with
  | fetched _ _ _ _ _ hstored _ => exact ⟨rfl, hstored.config⟩
  | _ => exact ⟨rfl, hget⟩

/-- A success of a reader is an object that it asked for. -/
theorem ReaderCourse.success_iff {nas : ReaderResult C}
    (h : ReaderCourse cfg objects scene path s (.ok nas) s') :
    nasSuccess nas.status = true ↔ 0 < s.cache.config.capacity ∧
      ∃ o, objects.lookup (readerKey cfg path) = some o ∧ nas.data = o.body ∧
        Asks cfg scene path s o := by
  cases h with
  | cached _ hnot hstatus =>
    rw [hstatus]
    exact iff_of_false (by decide) fun ⟨_, o, ho, _, hasks⟩ => hnot o ho hasks
  | missing _ hnone hstatus =>
    rw [hstatus, hnone]
    exact iff_of_false (by decide) (by simp)
  | fetched ho hasks hpos hstatus hdata _ _ =>
    exact iff_of_true hstatus ⟨hpos, _, ho, hdata, hasks⟩

end

/-! ## what the reader of a tier answers -/

/-- The answers of a tier's reader and the states they leave. -/
inductive ReaderAnswer (cfg : ReaderConfig C) (objects : AList fun _ : Key => Obj C)
    (path : Path) (cached : Option C) (capacity : ℤ) :
    Except CacheError (ReaderResult C) → TierState C → Prop where
  | cached {r : ReaderResult C} {s' : TierState C} : cached ≠ none → r.status = .hitCache →
      ReaderAnswer cfg objects path cached capacity (.ok r) s'
  | missing {r : ReaderResult C} {s' : TierState C} : cached = none →
      objects.lookup (readerKey cfg path) = none → r.status = .notFound →
      ReaderAnswer cfg objects path cached capacity (.ok r) s'
  | fetched {o : Obj C} {r : ReaderResult C} {s' : TierState C} : cached = none →
      objects.lookup (readerKey cfg path) = some o → 0 < capacity →
      nasSuccess r.status = true → r.data = o.body → Backed cfg objects s'.etags path o.body →
      ReaderAnswer cfg objects path cached capacity (.ok r) s'
  | raised {o : Obj C} {s' : TierState C} : cached = none →
      objects.lookup (readerKey cfg path) = some o → capacity ≤ 0 →
      ReaderAnswer cfg objects path cached capacity (.error .keyError) s'

/-- The state a reader leaves: sound, with the settings it had. -/
def Leaves (cfg : ReaderConfig C) (objects : AList fun _ : Key => Obj C) (s s' : TierState C) :
    Prop := Sound cfg objects s' ∧ s'.cache.config = s.cache.config

/-- In a sound state no copy has another ETag than the NAS reports. -/
theorem ReaderCourse.answer (hs : Sound cfg objects s) (p : PartitionPath)
    {r : Except CacheError (ReaderResult C)} (h : ReaderCourse cfg objects scene p.path s r s') :
    ReaderAnswer cfg objects p.path
      (s.cache.fresh scene.times.readerLookup (readerKey cfg p.path))
      s.cache.config.capacity r s' ∧ Leaves cfg objects s s' := by
  have hget := s.cache.within_get scene.times.readerLookup (readerKey cfg p.path)
  have hgot : Leaves cfg objects s (s.looked scene.times.readerLookup (readerKey cfg p.path)) :=
    ⟨hs.within hget, hget.config⟩
  cases h with
  | cached hcached _ hstatus => exact ⟨.cached hcached hstatus, hgot⟩
  | missing hnone ho hstatus => exact ⟨.missing hnone ho hstatus, hgot⟩
  | raised hnone ho hle => exact ⟨.raised hnone ho hle, hgot⟩
  | @fetched o r c etags ho hasks hpos hstatus hdata hstored hetags =>
    have hnone : s.cache.fresh scene.times.readerLookup (readerKey cfg p.path) = none := by
      refine hasks.elim id fun ⟨htier, _, hdiff⟩ => ?_
      by_contra hsome
      obtain ⟨v, hv⟩ := Option.ne_none_iff_exists'.mp hsome
      obtain ⟨o', ho', -, htag⟩ := hs.backed _ v (ReaderCache.value?_of_fresh hv)
      rw [p.readerKey_readerKey] at ho' htag
      cases ho.symm.trans ho'
      rw [extractTier_readerKey] at htag
      exact hdiff (by rw [htag htier]; rfl)
    have htags : Sound cfg objects { s with etags := etags } ∧
        (extractTier p.path = some "L1" → etags.lookup (readerKey cfg p.path) = some o.etag) := by
      rw [hetags]
      split
      · exact ⟨hs.tag ho, fun _ => AList.lookup_insert _⟩
      · exact ⟨hs, fun h => absurd h ‹_›⟩
    have hback : Backed cfg objects etags (readerKey cfg p.path) o.body := by
      refine ⟨o, by rw [p.readerKey_readerKey, ho], rfl, ?_⟩
      rw [extractTier_readerKey, p.readerKey_readerKey]
      exact htags.2
    exact ⟨.fetched hnone ho hpos hstatus hdata ⟨o, ho, rfl, htags.2⟩,
      htags.1.stored hpos hstored hback, hstored.config⟩

/-! ## what the facade answers -/

variable {tier : String}

/-- Whether the breaker keeps this call off the NAS. -/
def Blocked (s : TierState C) (scene : Scene C) : Prop :=
  (s.dr.currentState scene.times.state).blocking = true

/-- What one call can do: the facade's own entry is fresh; or it falls back on the local
file, because of the breaker or because the reader has a fresh entry; or the NAS is
asked. -/
inductive Outcome (cfg : ReaderConfig C) (objects : AList fun _ : Key => Obj C) (scene : Scene C)
    (path : Path) (s : TierState C) : Except CacheError (TierReadResult C) → Prop where
  | fresh {v : C} {a : TierReadResult C} : s.cache.fresh scene.times.lookup path = some v →
      a.status = .hitCache → a.data = v → Outcome cfg objects scene path s (.ok a)
  | standby {tier : String} : s.cache.fresh scene.times.lookup path = none →
      (Blocked s scene ∨
        s.cache.fresh scene.times.readerLookup (readerKey cfg path) ≠ none) →
      Outcome cfg objects scene path s (.ok (localFallbackOrUnreachable cfg scene path none tier))
  | missing {a : TierReadResult C} : s.cache.fresh scene.times.lookup path = none →
      ¬ (Blocked s scene ∨
        s.cache.fresh scene.times.readerLookup (readerKey cfg path) ≠ none) →
      objects.lookup (readerKey cfg path) = none → a.status = .notFound →
      Outcome cfg objects scene path s (.ok a)
  | fetched {o : Obj C} {a : TierReadResult C} : s.cache.fresh scene.times.lookup path = none →
      ¬ (Blocked s scene ∨
        s.cache.fresh scene.times.readerLookup (readerKey cfg path) ≠ none) →
      objects.lookup (readerKey cfg path) = some o → 0 < s.cache.config.capacity →
      a.status = .hitNas → a.data = o.body → Outcome cfg objects scene path s (.ok a)
  | raised {o : Obj C} : s.cache.fresh scene.times.lookup path = none →
      ¬ (Blocked s scene ∨
        s.cache.fresh scene.times.readerLookup (readerKey cfg path) ≠ none) →
      objects.lookup (readerKey cfg path) = some o → s.cache.config.capacity ≤ 0 →
      Outcome cfg objects scene path s (.error .keyError)

theorem Times.lookup_le_readerLookup (t : Times) : t.lookup ≤ t.readerLookup :=
  List.rel_of_pairwise_cons (List.pairwise_cons.mp t.ordered).2 (by simp)

/-- The state in which the reader of the tier is called. -/
def TierState.entered (s : TierState C) (scene : Scene C) (path : Path) : TierState C :=
  { s.looked scene.times.lookup path with dr := s.dr.currentState scene.times.state }

section

variable (cfg : ReaderConfig C) (objects : AList fun _ : Key => Obj C) (scene : Scene C)
  (path : Path) (s : TierState C)

/-- What a call on a path with a tier answers in any state, and the state it leaves. -/
inductive Course : Except CacheError (TierReadResult C) → TierState C → Prop where
  | fresh {v : C} {a : TierReadResult C} : s.cache.fresh scene.times.lookup path = some v →
      a.status = .hitCache → a.data = v → Course (.ok a) (s.looked scene.times.lookup path)
  | blocked : s.cache.fresh scene.times.lookup path = none → Blocked s scene →
      Course (.ok (localFallbackOrUnreachable cfg scene path
        (some (s.dr.currentState scene.times.state).state) "")) (s.entered scene path)
  | found {nas : ReaderResult C} {a : TierReadResult C} {s₁ : TierState C} {c : ReaderCache C} :
      s.cache.fresh scene.times.lookup path = none → ¬ Blocked s scene →
      ReaderCourse cfg objects scene path (s.entered scene path) (.ok nas) s₁ →
      nasSuccess nas.status = true → a.status = .hitNas → a.data = nas.data →
      ReaderCache.Stored s₁.cache path nas.data c →
      Course (.ok a) { s₁ with dr := s₁.dr.recordSuccess scene.times.record, cache := c }
  | failed {nas : ReaderResult C} {a : TierReadResult C} {s₁ : TierState C} {T : String} :
      s.cache.fresh scene.times.lookup path = none → ¬ Blocked s scene →
      ReaderCourse cfg objects scene path (s.entered scene path) (.ok nas) s₁ →
      nasSuccess nas.status = false →
      (if nas.status = .notFound then a.status = .notFound
        else a = localFallbackOrUnreachable cfg scene path none T) →
      Course (.ok a) { s₁ with dr := (s₁.dr.recordFailure scene.times.record 503
        ((scene.times.record - scene.times.start) * 1000)) }
  | raised {e : CacheError} {s₁ : TierState C} : s.cache.fresh scene.times.lookup path = none →
      ¬ Blocked s scene →
      ReaderCourse cfg objects scene path (s.entered scene path) (.error e) s₁ →
      Course (.error e) s₁

end

theorem wp_read_course (hroomed : s.cache.Roomed) (hclient : scene.client = some (serving objects))
    (htier : extractTier path = some tier) :
    wp (read cfg scene path) (Course cfg objects scene path s) s := by
  have hget := s.cache.within_get scene.times.lookup path
  unfold read
  rw [wp_bind, wp_cacheGet]
  cases hfresh : s.cache.fresh scene.times.lookup path with
  | some v => exact .fresh hfresh rfl rfl
  | none =>
    simp only [updateDr, wp_bind, wp_modify, wp_get, htier]
    split
    case isTrue hblocked => exact .blocked hfresh hblocked
    case isFalse hblocked =>
      rw [wp_bind]
      refine wp_mono
        (wp_readTier (s := s.entered scene path) (hroomed.within hget) hclient htier) ?_
      intro r s₁ h
      cases r with
      | error e => exact .raised hfresh hblocked h
      | ok nas =>
        unfold handleNasResult
        cases hok : nasSuccess nas.status with
        | true =>
          have hpos : 0 < s₁.cache.config.capacity := h.frame.2 ▸ (h.success_iff.mp hok).1
          simp only [hok, if_true, updateDr, wp_bind, wp_modify]
          refine wp_cachePut (fun hle => ?_) (fun c _ hstored => ?_) fun hle => ?_
          · exact absurd hpos (not_lt.mpr hle)
          · exact .found hfresh hblocked h hok rfl rfl hstored
          · exact absurd hpos (not_lt.mpr hle)
        | false =>
          simp only [hok, Bool.false_eq_true, if_false, updateDr, wp_bind, wp_modify]
          split
          case isTrue h404 =>
            exact .failed (T := tier) hfresh hblocked h hok (by rw [if_pos h404])
          case isFalse h404 => exact .failed hfresh hblocked h hok (by rw [if_neg h404])

theorem PartitionPath.exists_tier (p : PartitionPath) : ∃ tier, extractTier p.path = some tier := by
  have hmem := p.tier
  simp only [List.mem_cons, List.not_mem_nil, or_false] at hmem
  obtain h | h | h := hmem <;> exact ⟨_, h⟩

/-- **One read.** Its answer is one of the outcomes, and the state stays sound. -/
theorem wp_read (hs : Sound cfg objects s) (hclient : scene.client = some (serving objects))
    (p : PartitionPath) :
    wp (read cfg scene p.path) (fun r s' =>
      Outcome cfg objects scene p.path s r ∧ Sound cfg objects s') s := by
  obtain ⟨tier, htier⟩ := p.exists_tier
  have hget := s.cache.within_get scene.times.lookup p.path
  have hdr : Sound cfg objects (s.entered scene p.path) :=
    (hs.within hget).updateDr (f := (·.currentState scene.times.state)) fun h => h.currentState _
  have hanswer : ∀ {r s₁}, ReaderCourse cfg objects scene p.path (s.entered scene p.path) r s₁ →
      ReaderAnswer cfg objects p.path
        (s.cache.fresh scene.times.readerLookup (readerKey cfg p.path))
        s.cache.config.capacity r s₁ ∧ Sound cfg objects s₁ := by
    intro r s₁ h
    obtain ⟨hanswer, hs₁, -⟩ := h.answer hdr p
    dsimp only [TierState.entered, TierState.looked] at hanswer
    rw [ReaderCache.fresh_get scene.times.lookup_le_readerLookup, hget.config] at hanswer
    exact ⟨hanswer, hs₁⟩
  refine wp_mono (wp_read_course hs.roomed hclient htier) fun r s' h => ?_
  cases h with
  | fresh hfresh hstatus hdata => exact ⟨.fresh hfresh hstatus hdata, hs.within hget⟩
  | blocked hfresh hblocked =>
    have hopen : (s.dr.currentState scene.times.state).state = _ :=
      hdr.known.state_of_blocking hblocked
    rw [hopen]
    exact ⟨.standby hfresh (Or.inl hblocked), hdr⟩
  | raised hfresh hblocked hreader =>
    obtain ⟨hanswer, hs₁⟩ := hanswer hreader
    cases hanswer with
    | raised hcached ho hle =>
      exact ⟨.raised hfresh (not_or.mpr ⟨hblocked, not_not.mpr hcached⟩) ho hle, hs₁⟩
  | found hfresh hblocked hreader hok ha hdata' hstored =>
    obtain ⟨hanswer, hs₁⟩ := hanswer hreader
    cases hanswer with
    | cached _ hstatus => rw [hstatus] at hok; cases hok
    | missing _ _ hstatus => rw [hstatus] at hok; cases hok
    | fetched hcached ho hpos hstatus hdata hback =>
      have hpos' := (hreader.frame.2.trans hget.config).symm ▸ hpos
      have hsuccess := hs₁.updateDr (f := (·.recordSuccess scene.times.record))
        fun h => h.recordSuccess _
      exact ⟨.fetched hfresh (not_or.mpr ⟨hblocked, not_not.mpr hcached⟩) ho hpos ha
        (hdata'.trans hdata), hsuccess.stored hpos' hstored (hdata ▸ hback)⟩
  | failed hfresh hblocked hreader hno ha =>
    obtain ⟨hanswer, hs₁⟩ := hanswer hreader
    have hfailure := hs₁.updateDr (f := (·.recordFailure scene.times.record 503
      ((scene.times.record - scene.times.start) * 1000))) fun h => h.recordFailure _ _ _
    cases hanswer with
    | cached hcached hstatus =>
      rw [if_neg (by rw [hstatus]; decide)] at ha
      exact ⟨ha ▸ .standby hfresh (Or.inr hcached), hfailure⟩
    | missing hcached ho hstatus =>
      rw [if_pos hstatus] at ha
      exact ⟨.missing hfresh (not_or.mpr ⟨hblocked, not_not.mpr hcached⟩) ho ha, hfailure⟩
    | fetched _ _ _ hstatus _ _ => rw [hstatus] at hno; cases hno

/-! ## runs of reads -/

/-- One call of `TierReader.read`: the path, the clock and the local files. -/
structure Call (C : Type) where
  partition : PartitionPath
  times : Times
  localFile : Path → Option (Option C)

/-- The NAS is reachable and serves one bucket throughout. -/
def Call.onNas (objects : AList fun _ : Key => Obj C) (call : Call C) : Scene C :=
  ⟨call.times, some (serving objects), call.localFile⟩

def readCall (cfg : ReaderConfig C) (objects : AList fun _ : Key => Obj C) (call : Call C) :
    Reading C (TierReadResult C) :=
  read cfg (call.onNas objects) call.partition.path

/-- Reads, one after the other, from fresh readers. -/
def tierMachine (cfg : ReaderConfig C) (objects : AList fun _ : Key => Obj C) :
    Machine (TierState C) (Call C) where
  init s := ∃ cacheConfig drConfig,
    s = { cache := { config := cacheConfig }, dr := { config := drConfig } }
  step s call := some ((readCall cfg objects call).after s)

theorem sound_of_reaches (hs : (tierMachine cfg objects).Reaches Machine.anyStep s) :
    Sound cfg objects s := by
  refine hs.invariant ?_ ?_
  · rintro - ⟨cacheConfig, drConfig, rfl⟩
    exact ⟨nofun, fun _ => rfl, nofun⟩
  · rintro s call s' hs - hstep
    cases hstep
    exact (wp_read hs rfl call.partition).2

/-- The bytes of the object at a key. -/
def bytesAt (objects : AList fun _ : Key => Obj C) (key : Key) : Option C :=
  (objects.lookup key).map (·.body)

/-- The answer is the bytes of the path's own object, or that there is none. -/
def Returns (objects : AList fun _ : Key => Obj C) (path : Path) :
    Except CacheError (TierReadResult C) → Prop
  | .ok a =>
    match bytesAt objects (objectKey path) with
    | some v => a.status ∈ [.hitCache, .hitNas, .localFallback] ∧ a.data = v
    | none => a.status = .notFound
  | .error _ => False

/-- The call does without the NAS: the breaker is open, or the reader's key is fresh in
the cache and the path's is not. -/
def OnStandby (cfg : ReaderConfig C) (objects : AList fun _ : Key => Obj C) (s : TierState C)
    (call : Call C) : Prop :=
  Blocked s (call.onNas objects) ∨
    s.cache.fresh call.times.readerLookup (readerKey cfg call.partition.path) ≠ none

/-- What has to hold before a call for its answer to be right: unless it is on standby, the
reader's key holds the bytes of the path's own object, and there is room in the cache for
what is fetched; on standby, a local copy with these bytes stands in. -/
structure ReadsTrue (cfg : ReaderConfig C) (objects : AList fun _ : Key => Obj C)
    (s : TierState C) (call : Call C) : Prop where
  fresh : s.cache.fresh call.times.lookup call.partition.path ≠ none →
    bytesAt objects (readerKey cfg call.partition.path) =
      bytesAt objects (objectKey call.partition.path)
  standby : s.cache.fresh call.times.lookup call.partition.path = none →
    OnStandby cfg objects s call →
    ∃ v, localCopy cfg (call.onNas objects) call.partition.path = some v ∧
      bytesAt objects (objectKey call.partition.path) = some v
  asked : s.cache.fresh call.times.lookup call.partition.path = none →
    ¬ OnStandby cfg objects s call →
    bytesAt objects (readerKey cfg call.partition.path) =
        bytesAt objects (objectKey call.partition.path) ∧
      (0 < s.cache.config.capacity ∨ bytesAt objects (readerKey cfg call.partition.path) = none)

theorem returns_hit {a : TierReadResult C} {v : C}
    (hstatus : a.status ∈ [.hitCache, .hitNas, .localFallback]) (hdata : a.data = v) :
    Returns objects path (.ok a) ↔ bytesAt objects (objectKey path) = some v := by
  have hfound : a.status ≠ .notFound := by
    intro h
    simp [h] at hstatus
  unfold Returns
  cases bytesAt objects (objectKey path) <;> simp [hfound, hstatus, hdata, eq_comm]

theorem returns_notFound {a : TierReadResult C} (hstatus : a.status = .notFound) :
    Returns objects path (.ok a) ↔ bytesAt objects (objectKey path) = none := by
  unfold Returns
  cases bytesAt objects (objectKey path) <;> simp [hstatus]

theorem not_returns_unreachable {r : Except CacheError (TierReadResult C)}
    (hr : r.map (·.status) = .ok .nasUnreachable) : ¬ Returns objects path r := by
  cases r with
  | error e => exact id
  | ok a =>
    have hstatus : a.status = .nasUnreachable := Except.ok.inj hr
    unfold Returns
    cases bytesAt objects (objectKey path) <;> simp [hstatus]

/-- A fallback is right if the local file has the bytes of the object. -/
theorem returns_localFallback :
    Returns objects path (.ok (localFallbackOrUnreachable cfg scene path none tier)) ↔
      ∃ v, localCopy cfg scene path = some v ∧ bytesAt objects (objectKey path) = some v := by
  unfold localFallbackOrUnreachable
  cases hcopy : localCopy cfg scene path with
  | some v =>
    rw [returns_hit (by simp) rfl]
    simp
  | none =>
    refine iff_of_false (not_returns_unreachable rfl) ?_
    rintro ⟨v, hv, -⟩
    cases hv

/-- **A tier read is right exactly when it reads true.** In every state that reads alone
have made, whatever the settings of the cache and of the breaker. -/
theorem read_returns_iff (hs : (tierMachine cfg objects).Reaches Machine.anyStep s)
    (call : Call C) :
    Returns objects call.partition.path ((readCall cfg objects call).result s) ↔
      ReadsTrue cfg objects s call := by
  have hsound := sound_of_reaches hs
  have houtcome : Outcome cfg objects (call.onNas objects) call.partition.path s
      ((readCall cfg objects call).result s) := (wp_read hsound rfl call.partition).1
  generalize (readCall cfg objects call).result s = r at houtcome
  cases houtcome with
  | @fresh v a hfresh hstatus hdata =>
    obtain ⟨o, ho, hbody, -⟩ := hsound.backed _ _ (ReaderCache.value?_of_fresh hfresh)
    have hfound : bytesAt objects (readerKey cfg call.partition.path) = some v := by
      simp [bytesAt, ho, hbody]
    rw [returns_hit (by simp [hstatus]) hdata]
    constructor
    · intro h
      exact ⟨fun _ => hfound.trans h.symm, fun hnone => absurd (hfresh.symm.trans hnone) nofun,
        fun hnone => absurd (hfresh.symm.trans hnone) nofun⟩
    · intro h
      exact (h.fresh (hfresh.trans_ne nofun)).symm.trans hfound
  | standby hfresh hstandby =>
    rw [returns_localFallback]
    exact ⟨fun h => ⟨fun hne => absurd hfresh hne, fun _ _ => h,
        fun _ hnot => absurd hstandby hnot⟩,
      fun h => h.standby hfresh hstandby⟩
  | missing hfresh hasked ho hstatus =>
    have hfound : bytesAt objects (readerKey cfg call.partition.path) = none := by
      simp [bytesAt, ho]
    rw [returns_notFound hstatus]
    exact ⟨fun h => ⟨fun hne => absurd hfresh hne, fun _ hstandby => absurd hstandby hasked,
        fun _ _ => ⟨hfound.trans h.symm, Or.inr hfound⟩⟩,
      fun h => (h.asked hfresh hasked).1.symm.trans hfound⟩
  | @fetched o a hfresh hasked ho hpos hstatus hdata =>
    have hfound : bytesAt objects (readerKey cfg call.partition.path) = some o.body := by
      simp [bytesAt, ho]
    rw [returns_hit (by simp [hstatus]) hdata]
    exact ⟨fun h => ⟨fun hne => absurd hfresh hne, fun _ hstandby => absurd hstandby hasked,
        fun _ _ => ⟨hfound.trans h.symm, Or.inl hpos⟩⟩,
      fun h => (h.asked hfresh hasked).1.symm.trans hfound⟩
  | raised hfresh hasked ho hle =>
    refine ⟨False.elim, fun h => ?_⟩
    obtain hpos | hnone := (h.asked hfresh hasked).2
    · exact absurd hpos (not_lt.mpr hle)
    · simp [bytesAt, ho] at hnone

-- concrete runs

def atOnce : Times := ⟨0, 0, 0, 0, 0, 0, 0, by decide⟩

def plainReaders : ReaderConfig String where
  cutoff := 0
  datetime _ _ _ := none
  noBytes := ""

/-- The readers as the API builds them, before the first read. -/
def freshReaders : TierState String where
  cache := { config := ⟨512, 3600, some 268435456⟩ }
  dr := { config := {} }

def legacyDay : PartitionPath where
  path := ["tier=L2", "exchange=upbit", "symbol=BTC", "date=2026-01-01", "part.parquet"]
  tier := by decide
  named := by decide
  simple := by decide
  hours := by decide

def nodeDay : PartitionPath where
  path := ["tier=L2", "exchange=upbit", "symbol=BTC", "date=2026-01-01", "node=DEFAULT",
    "part.parquet"]
  tier := by decide
  named := by decide
  simple := by decide
  hours := by decide

def upbitHour : PartitionPath where
  path := ["tier=L1", "exchange=upbit", "symbol=BTC", "date=20260101", "hour=09",
    "BTC_20260101_09.parquet"]
  tier := by decide
  named := by decide
  simple := by decide
  hours := by decide

def callOf (p : PartitionPath) : Call String := ⟨p, atOnce, fun _ => none⟩

/-- A day of L2 and one hour of L1 on two exchanges. -/
def dayAndHours : AList fun _ : Key => Obj String :=
  ((AList.singleton nodeDay.path ⟨"day", none, "a", none⟩).insert upbitHour.path
    ⟨"upbit", none, "b", none⟩).insert
      ["tier=L1", "exchange=DEFAULT", "symbol=BTC", "date=20260101", "hour=09",
        "BTC_20260101_09.parquet"] ⟨"other", none, "c", none⟩

theorem freshReaders_reached :
    (tierMachine plainReaders dayAndHours).Reaches Machine.anyStep freshReaders :=
  .init ⟨_, _, rfl⟩

/-- A path of the legacy layout is read from its `node=DEFAULT` object, and again from the
cache. -/
theorem read_returns_legacy_day :
    Returns dayAndHours legacyDay.path
      ((readCall plainReaders dayAndHours (callOf legacyDay)).result
        ((readCall plainReaders dayAndHours (callOf legacyDay)).after freshReaders)) := by
  have hfresh : ((readCall plainReaders dayAndHours (callOf legacyDay)).after
      freshReaders).cache.fresh 0 legacyDay.path = some "day" := by decide +kernel
  refine (read_returns_iff (freshReaders_reached.step trivial rfl) (callOf legacyDay)).mpr
    ⟨fun _ => by decide +kernel, fun hnone => ?_, fun hnone => ?_⟩
  all_goals exact absurd (hfresh.symm.trans hnone) nofun

/-- **The cache holds what the readers find.** After any reads, whatever the breaker did, a
value in the cache is the object at the reader's key of its path. -/
theorem cache_holds_objects (hs : (tierMachine cfg objects).Reaches Machine.anyStep s) {k : Key}
    {v : C} (hv : s.cache.value? k = some v) : bytesAt objects (readerKey cfg k) = some v := by
  obtain ⟨o, ho, hbody, -⟩ := (sound_of_reaches hs).backed k v hv
  rw [bytesAt, ho, ← hbody]
  rfl

theorem cache_holds_legacy_day :
    bytesAt dayAndHours (readerKey plainReaders legacyDay.path) = some "day" :=
  cache_holds_objects (freshReaders_reached.step (a := callOf legacyDay) trivial rfl)
    (by decide +kernel)

def missingDay : PartitionPath where
  path := ["tier=L3", "exchange=upbit", "symbol=BTC", "date=2026-01-01", "part.parquet"]
  tier := by decide
  named := by decide
  simple := by decide
  hours := by decide

/-- The hour of one exchange is answered with that of another; a day read once under its
node is unreachable under its legacy path; and so is every day after five reads of a
partition that does not exist. -/
theorem read_returns_another_or_nothing :
    (¬ Returns dayAndHours upbitHour.path
      ((readCall plainReaders dayAndHours (callOf upbitHour)).result freshReaders)) ∧
    (∃ s, (tierMachine plainReaders dayAndHours).run freshReaders [callOf nodeDay] = some s ∧
      ¬ Returns dayAndHours legacyDay.path
        ((readCall plainReaders dayAndHours (callOf legacyDay)).result s)) ∧
    ∃ s, (tierMachine plainReaders dayAndHours).run freshReaders
        (List.replicate 5 (callOf missingDay)) = some s ∧
      ¬ Returns dayAndHours nodeDay.path
        ((readCall plainReaders dayAndHours (callOf nodeDay)).result s) := by
  refine ⟨?_, ⟨_, rfl, ?_⟩, ⟨_, rfl, ?_⟩⟩
  · have hother : (readCall plainReaders dayAndHours (callOf upbitHour)).result freshReaders =
        .ok { status := .hitNas, data := "other",
              nasObjectKey := (l1Partition upbitHour.path).buildKey, tier := "L1" } := by
      decide +kernel
    rw [hother, returns_hit (v := "other") (by decide) rfl]
    decide +kernel
  · exact not_returns_unreachable (by decide +kernel)
  · exact not_returns_unreachable (by decide +kernel)

end MctraderData.Tier
