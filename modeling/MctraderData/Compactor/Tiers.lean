import MctraderData.Compactor.Merge

/-!
# mctrader-data — compact_hour and compact_day

The four entry points of `compactor/l2.py` and `compactor/l3.py` as instances of the
merge: a source is a local file, or a NAS object through the size-gated cache of
`_nas_stream_cache.py`.

`compact_hour` takes the hour into the name of its output directory and nowhere else.

## Results

* `compactHourLocal_post`, `compactDayLocal_post`, `compactHourNas_post`,
  `compactDayNas_post` — what each call merges, and where the result goes.
* `Span.compact_post` — what a call leaves, whichever of the four it is.
-/

namespace MctraderData.Compactor

open Lib
open Nas

/-! ## the two ways to fetch a source -/

section

variable {W R : Type} [Blob (Content W R)]

def parseTable (c : Content W R) : Prog (Content W R) (Table R) :=
  match c.asTable with
  | some t => pure t
  | none => throw .arrowInvalid

variable {w : World (Content W R)}

theorem wp_parseTable {c : Content W R} {Q : Except Exn (Table R) → World (Content W R) → Prop} :
    Eff.wp (parseTable c) Q w ↔ match c.asTable with
      | some t => Q (.ok t) w
      | none => Q (.error .arrowInvalid) w := by
  unfold parseTable
  cases c.asTable <;> rfl

/-- A local file. -/
def fetchLocal (_ : Unit) (path : Path) : Prog (Content W R) (Table R × Unit) := do
  let c ← readFile path
  let t ← parseTable c
  pure (t, ())

/-- `_SizeGatedStreamCache` -/
structure StreamCache (C : Type) where
  cache : List (Key × C)
  total : Nat

def StreamCache.empty {C : Type} : StreamCache C := ⟨[], 0⟩

/-- `_DEFAULT_THRESHOLD` -/
def cacheThreshold : Nat := 128 * 1024 * 1024

/-- What `get_or_fetch` keeps of a download. -/
def StreamCache.store {C : Type} [Blob C] (s : StreamCache C) (key : Key) (c : C) :
    StreamCache C :=
  if s.total + Blob.size c ≤ cacheThreshold then ⟨(key, c) :: s.cache, s.total + Blob.size c⟩
  else s

/-- A NAS object, through `get_or_fetch`. -/
def fetchNas (s : StreamCache (Content W R)) (key : Key) :
    Prog (Content W R) (Table R × StreamCache (Content W R)) :=
  match s.cache.lookup key with
  | some c => do
    let t ← parseTable c
    pure (t, s)
  | none => do
    let c ← clientGetObject key
    let t ← parseTable c
    pure (t, s.store key c)

/-- The parquet file at a path. -/
def localTable (w : World (Content W R)) (path : Path) : Option (Table R) :=
  (w.files.lookup path).bind Content.asTable

theorem localTable_congr {w' : World (Content W R)} (h : w'.files = w.files) :
    localTable w' = localTable w := by
  unfold localTable
  rw [h]

theorem localTable_insert_of_ne {w' w'' : World (Content W R)} {path : Path}
    {c : Content W R} (hfiles : w''.files = w'.files.insert path c) {path' : Path}
    (hne : path' ≠ path) : localTable w'' path' = localTable w' path' := by
  unfold localTable
  rw [hfiles, AList.lookup_insert_ne hne]

/-- The parquet object at a key. -/
def nasTable (w : World (Content W R)) (key : Key) : Option (Table R) :=
  (w.nas.lookup key).bind fun o => o.body.asTable

/-- Reading local files never fails for a readable file. -/
theorem fetchLocal_fetches (w₀ : World (Content W R)) :
    Fetches (localTable w₀) (fun w => w.files = w₀.files) (fun _ => True) True fetchLocal where
  step w s path hw _ := by
    simp only [fetchLocal, readFile, Eff.wp_bind, Eff.wp_get]
    cases hc : w.files.lookup path with
    | none =>
      have htable : localTable w₀ path = none := by simp [localTable, ← hw, hc]
      exact ⟨hw, .refl w, fun _ => htable⟩
    | some c =>
      have htable : localTable w₀ path = c.asTable := by simp [localTable, ← hw, hc]
      simp only [Eff.wp_pure, wp_parseTable]
      cases hp : c.asTable with
      | none => exact ⟨hw, .refl w, fun _ => htable.trans hp⟩
      | some t => exact ⟨hw, .refl w, htable.trans hp, trivial⟩
  mkdir _ _ hw := hw

/-- The cache holds objects of the bucket. -/
def CacheOk (w : World (Content W R)) (s : StreamCache (Content W R)) : Prop :=
  ∀ key c, s.cache.lookup key = some c → ∃ o, w.nas.lookup key = some o ∧ o.body = c

theorem CacheOk.empty (w : World (Content W R)) : CacheOk w .empty := by
  intro key c hc
  simp [StreamCache.empty] at hc

theorem CacheOk.store {s : StreamCache (Content W R)} {key : Key} {o : Obj (Content W R)}
    (h : CacheOk w s) (ho : w.nas.lookup key = some o) : CacheOk w (s.store key o.body) := by
  unfold StreamCache.store
  split
  · intro key' c hc
    rw [List.lookup_cons] at hc
    by_cases hkey : key' = key
    · subst hkey
      simp only [beq_self_eq_true, Option.some.injEq] at hc
      exact ⟨o, ho, hc⟩
    · simp only [beq_eq_false_iff_ne.mpr hkey] at hc
      exact h key' c hc
  · exact h

/-- Fetching NAS objects fails for a readable object only if a request fails. -/
theorem fetchNas_fetches (w₀ : World (Content W R)) (total : Prop) :
    Fetches (nasTable w₀) (fun w => w.nas = w₀.nas ∧ (total → Answering w.replies)) (CacheOk w₀)
      total fetchNas where
  step w s key hw hs := by
    obtain ⟨hnas, hans⟩ := hw
    have hnext : w.next.nas = w₀.nas ∧ (total → Answering w.next.replies) :=
      ⟨hnas, fun h => (hans h).tail⟩
    unfold fetchNas
    cases hhit : s.cache.lookup key with
    | some c =>
      obtain ⟨o, ho, rfl⟩ := hs key c hhit
      have htable : nasTable w₀ key = o.body.asTable := by simp [nasTable, ho]
      rw [Eff.wp_bind, wp_parseTable]
      cases hp : o.body.asTable with
      | none => exact ⟨⟨hnas, hans⟩, .refl w, fun _ => htable.trans hp⟩
      | some t => exact ⟨⟨hnas, hans⟩, .refl w, htable.trans hp, hs⟩
    | none =>
      rw [Eff.wp_bind]
      -- a miss asks the NAS, which may not answer
      refine wp_request_of ?_ fun e hno => ⟨hnext, .next w, fun htotal => absurd (hans htotal) hno⟩
      simp only [Eff.wp_bind, Eff.wp_get]
      rw [show w.next.nas = w₀.nas from hnas]
      cases ho : w₀.nas.lookup key with
      | none => exact ⟨hnext, .next w, fun _ => by simp [nasTable, ho]⟩
      | some o =>
        have htable : nasTable w₀ key = o.body.asTable := by simp [nasTable, ho]
        simp only [Eff.wp_pure, wp_parseTable]
        cases hp : o.body.asTable with
        | none => exact ⟨hnext, .next w, fun _ => htable.trans hp⟩
        | some t => exact ⟨hnext, .next w, htable.trans hp, hs.store ho⟩
  mkdir _ _ hw := hw

end

/-! ## compact_hour and compact_day -/

section

variable {W R : Type} (env : Env R)

/-- `f"{hour:02d}"` -/
def twoDigits (n : Nat) : String := if n < 10 then "0" ++ toString n else toString n

def quarantineDir (channel dateStr : String) : Path :=
  ["market", channel, "quarantine", dateStr, "monotonic_violation"]

def Partition.tierDir (p : Partition) (schemaVer tier : String) : Path :=
  Compactor.tierDir schemaVer tier p.exchange p.symbol p.channel (env.isoformat p.dateUtc)

def Partition.hourOutput (p : Partition) (schemaVer : String) (hourUtc : Nat) : MergeOutput :=
  ⟨p.tierDir env schemaVer "L2" ++ ["hour=" ++ twoDigits hourUtc, "node=MERGED"],
    quarantineDir p.channel (env.isoformat p.dateUtc)⟩

def Partition.dayOutput (p : Partition) (schemaVer : String) : MergeOutput :=
  ⟨p.tierDir env schemaVer "L3" ++ ["node=MERGED"],
    quarantineDir p.channel (env.isoformat p.dateUtc)⟩

/-- The quarantine lies outside every tier. -/
theorem not_tier_prefix_quarantine {p p' : Partition} {v tier : String} {out : MergeOutput}
    (hout : out.quarantineDir = quarantineDir p'.channel (env.isoformat p'.dateUtc)) :
    ¬ p.tierDir env v tier <+: (out.quarantinePath env).dropLast := by
  have hne : "schema_version=" ++ v ≠ "quarantine" := by
    intro h
    have hlist := congrArg String.toList h
    simp at hlist
  simp [MergeOutput.quarantinePath, hout, quarantineDir, Partition.tierDir, Compactor.tierDir,
    List.cons_prefix_cons, hne]

variable [Timed R] [Blob (Content W R)]

/-- `compact_hour` without a NAS uploader. -/
def compactHourLocal (p : Partition) (hourUtc : Nat) : Prog (Content W R) (Option Path) :=
  match schemaVersion p.channel with
  | none => throw .notImplementedError
  | some v => do
    let w ← get
    mergeSources env fetchLocal () (rglobParts w (p.tierDir env v "L1")) env.runId
      (p.hourOutput env v hourUtc)

/-- `compact_day` without a NAS uploader. -/
def compactDayLocal (p : Partition) : Prog (Content W R) (Option Path) :=
  match schemaVersion p.channel with
  | none => throw .notImplementedError
  | some v => do
    let w ← get
    mergeSources env fetchLocal () (rglobParts w (p.tierDir env v "L2")) env.runId
      (p.dayOutput env v)

def isParquetKey (key : Key) : Bool := hasSuffix ".parquet" (key.getLastD "")

/-- `dict.setdefault` -/
def setDefault (m : List (Key × Key)) (key value : Key) : List (Key × Key) :=
  if key ∈ m.map Prod.fst then m else m ++ [(key, value)]

/-- The canonical dedup of `_compact_hour_nas`: a flat key hides the legacy key of
the same object. -/
def candidateKeys (flatKeys legacyKeys : List Key) : List Key :=
  sortKeys ((legacyKeys.foldl (fun m raw => setDefault m (legacyKeyToCanonical raw) raw)
    (flatKeys.map fun k => (k, k))).map Prod.snd)

/-- `_list_objects`, the parquet objects only. -/
def listParquet (pfx : Key) : Prog (Content W R) (List Key) := do
  let keys ← clientListObjects pfx
  pure (keys.filter isParquetKey)

/-- A listing that fails is logged and gives no sources. -/
def orNone {α : Type} (m : Prog (Content W R) α) : Prog (Content W R) (Option α) :=
  tryCatch (do
    let a ← m
    pure (some a)) fun _ => pure none

/-- The listing of `_compact_hour_nas`: flat and legacy keys, deduplicated. -/
def listL1Keys (flatPrefix legacyPrefix : Key) : Prog (Content W R) (List Key) := do
  let flat ← listParquet flatPrefix
  let legacy ← listParquet legacyPrefix
  pure (candidateKeys (sortKeys flat) (sortKeys legacy))

/-- `_compact_hour_nas` -/
def compactHourNas (p : Partition) (hourUtc : Nat) : Prog (Content W R) (Option Path) :=
  match schemaVersion p.channel with
  | none => throw .notImplementedError
  | some v =>
    match buildL1Prefix p.channel v p.exchange p.symbol (env.isoformat p.dateUtc),
      buildLegacyL1Prefix p.channel v p.exchange p.symbol (env.isoformat p.dateUtc) with
    | some flatPrefix, some legacyPrefix => do
      match ← orNone (listL1Keys flatPrefix legacyPrefix) with
      | none => pure none
      | some candidates =>
        mergeSources env fetchNas .empty candidates
          (fun keys => env.runId (sortKeys (keys.map legacyKeyToCanonical)))
          (p.hourOutput env v hourUtc)
    | _, _ => throw .valueError

/-- `_compact_day_nas` -/
def compactDayNas (p : Partition) : Prog (Content W R) (Option Path) :=
  match schemaVersion p.channel with
  | none => throw .notImplementedError
  | some v =>
    match buildNasPrefix "L2" p.channel v p.exchange p.symbol (env.isoformat p.dateUtc) with
    | none => throw .valueError
    | some pfx => do
      match ← orNone (listParquet pfx) with
      | none => pure none
      | some candidates =>
        mergeSources env fetchNas .empty candidates env.runId (p.dayOutput env v)

/-- `L2Compactor.compact_hour`; `nas` says whether a NAS uploader is injected. -/
def compactHour (nas : Bool) (p : Partition) (hourUtc : Nat) :
    Prog (Content W R) (Option Path) :=
  if nas then compactHourNas env p hourUtc else compactHourLocal env p hourUtc

/-- `L3Compactor.compact_day` -/
def compactDay (nas : Bool) (p : Partition) : Prog (Content W R) (Option Path) :=
  if nas then compactDayNas env p else compactDayLocal env p

/-! ## specifications of the four entry points -/

variable {env} {w : World (Content W R)} {p : Partition} {v : String}

theorem compactHourLocal_post (hv : schemaVersion p.channel = some v) (hourUtc : Nat) :
    Eff.wp (compactHourLocal env p hourUtc) (MergePost env (localTable w) True
      (rglobParts w (p.tierDir env v "L1")) env.runId (p.hourOutput env v hourUtc) w) w := by
  unfold compactHourLocal
  rw [hv]
  exact mergeSources_post env (fetchLocal_fetches w) rfl trivial _ _

theorem compactDayLocal_post (hv : schemaVersion p.channel = some v) :
    Eff.wp (compactDayLocal env p) (MergePost env (localTable w) True
      (rglobParts w (p.tierDir env v "L2")) env.runId (p.dayOutput env v) w) w := by
  unfold compactDayLocal
  rw [hv]
  exact mergeSources_post env (fetchLocal_fetches w) rfl trivial _ _

/-- What `listParquet` returns when the listing is answered. -/
def listedParquet (w : World (Content W R)) (pfx : Key) : List Key :=
  (sortKeys (w.nas.keys.filter pfx.isPrefixOf)).filter isParquetKey

/-- What a listing returns, or that a request failed. -/
def Listed (w : World (Content W R)) (keys : List Key) (r : Except Exn (List Key))
    (w' : World (Content W R)) : Prop :=
  SameButReplies w w' ∧ (Answering w.replies → Answering w'.replies) ∧
    match r with
    | .ok l => l = keys
    | .error _ => ¬ Answering w.replies

omit [Timed R] in
theorem listParquet_post (w : World (Content W R)) (pfx : Key) :
    Eff.wp (listParquet pfx) (Listed w (listedParquet w pfx)) w := by
  unfold listParquet
  rw [Eff.wp_bind]
  exact wp_request_of ⟨.next w, Answering.tail, rfl⟩ fun e hno => ⟨.next w, Answering.tail, hno⟩

/-- The keys `_compact_hour_nas` merges. -/
def listedL1 (w : World (Content W R)) (flatPrefix legacyPrefix : Key) : List Key :=
  candidateKeys (sortKeys (listedParquet w flatPrefix)) (sortKeys (listedParquet w legacyPrefix))

omit [Timed R] in
theorem listL1Keys_post (w : World (Content W R)) (flatPrefix legacyPrefix : Key) :
    Eff.wp (listL1Keys flatPrefix legacyPrefix)
      (Listed w (listedL1 w flatPrefix legacyPrefix)) w := by
  refine Eff.wp_seq (listParquet_post w flatPrefix) ?_ fun _ _ h => h
  rintro flat w₁ ⟨hsame₁, hans₁, rfl⟩
  refine Eff.wp_seq (listParquet_post w₁ legacyPrefix) ?_ ?_
  · rintro legacy w₂ ⟨hsame₂, hans₂, rfl⟩
    refine ⟨hsame₁.trans hsame₂, fun h => hans₂ (hans₁ h), ?_⟩
    unfold listedL1 listedParquet
    rw [hsame₁.stores.nas]
    rfl
  · rintro e w₂ ⟨hsame₂, hans₂, hno⟩
    exact ⟨hsame₁.trans hsame₂, fun h => hans₂ (hans₁ h), fun h => hno (hans₁ h)⟩

/-- A merge of NAS objects after their listing: nothing if the listing failed. -/
def NasMergePost (env : Env R) (keys : List Key) (runId : List Key → String) (out : MergeOutput)
    (w : World (Content W R)) (r : Except Exn (Option Path)) (w' : World (Content W R)) : Prop :=
  (r = .ok none ∧ SameButReplies w w' ∧ ¬ Answering w.replies) ∨
    MergePost env (nasTable w) (Answering w.replies) keys runId out w r w'

theorem nasMerge_post {list : Prog (Content W R) (List Key)} {keys : List Key}
    (hlist : Eff.wp list (Listed w keys) w) (runId : List Key → String) (out : MergeOutput) :
    Eff.wp (do
      match ← orNone list with
      | none => pure none
      | some candidates => mergeSources env fetchNas .empty candidates runId out)
      (NasMergePost env keys runId out w) w := by
  refine Eff.wp_seq (Eff.wp_orNone hlist) ?_ ?_
  · rintro a w₁ ⟨r', ⟨hsame, hans, hkeys⟩, ha⟩
    cases r' with
    | ok l =>
      cases ha
      subst hkeys
      refine Eff.wp_mono (mergeSources_post env (fetchNas_fetches w (Answering w.replies))
        ⟨hsame.stores.nas, hans⟩ (CacheOk.empty w) runId out) fun r w' h => ?_
      exact Or.inr (h.weaken hsame id)
    | error e =>
      cases ha
      exact Or.inl ⟨rfl, hsame, hkeys⟩
  · rintro e w₁ ⟨r', -, ha⟩
    cases ha

theorem compactHourNas_post {flatPrefix legacyPrefix : Key}
    (hv : schemaVersion p.channel = some v)
    (hflat : buildL1Prefix p.channel v p.exchange p.symbol (env.isoformat p.dateUtc) =
      some flatPrefix)
    (hlegacy : buildLegacyL1Prefix p.channel v p.exchange p.symbol (env.isoformat p.dateUtc) =
      some legacyPrefix) (hourUtc : Nat) :
    Eff.wp (compactHourNas env p hourUtc) (NasMergePost env (listedL1 w flatPrefix legacyPrefix)
      (fun keys => env.runId (sortKeys (keys.map legacyKeyToCanonical)))
      (p.hourOutput env v hourUtc) w) w := by
  unfold compactHourNas
  rw [hv]
  simp only [hflat, hlegacy]
  exact nasMerge_post (listL1Keys_post w flatPrefix legacyPrefix) _ _

theorem compactDayNas_post {pfx : Key} (hv : schemaVersion p.channel = some v)
    (hpfx : buildNasPrefix "L2" p.channel v p.exchange p.symbol (env.isoformat p.dateUtc) =
      some pfx) :
    Eff.wp (compactDayNas env p) (NasMergePost env (listedParquet w pfx) env.runId
      (p.dayOutput env v) w) w := by
  unfold compactDayNas
  rw [hv]
  simp only [hpfx]
  exact nasMerge_post (listParquet_post w pfx) _ _

end

/-! ## the four calls as one -/

/-- What one call compacts: an hour into L2, or the day into L3. -/
inductive Span where
  | hour (hourUtc : Nat)
  | day
deriving DecidableEq

section

variable {W R : Type} [Blob (Content W R)]

/-- The L1 files `compact_hour` merges from the local disk. -/
def localL1 (env : Env R) (w : World (Content W R)) (p : Partition) : List Path :=
  match schemaVersion p.channel with
  | none => []
  | some v => rglobParts w (p.tierDir env v "L1")

/-- The L1 objects `compact_hour` merges from NAS. -/
def nasL1 (env : Env R) (w : World (Content W R)) (p : Partition) : List Key :=
  match schemaVersion p.channel with
  | none => []
  | some v =>
    match buildL1Prefix p.channel v p.exchange p.symbol (env.isoformat p.dateUtc),
      buildLegacyL1Prefix p.channel v p.exchange p.symbol (env.isoformat p.dateUtc) with
    | some flatPrefix, some legacyPrefix => listedL1 w flatPrefix legacyPrefix
    | _, _ => []

/-- The L2 files `compact_day` merges from the local disk. -/
def localL2 (env : Env R) (w : World (Content W R)) (p : Partition) : List Path :=
  match schemaVersion p.channel with
  | none => []
  | some v => rglobParts w (p.tierDir env v "L2")

/-- The L2 objects `compact_day` merges from NAS. -/
def nasL2 (env : Env R) (w : World (Content W R)) (p : Partition) : List Key :=
  match schemaVersion p.channel with
  | none => []
  | some v =>
    match buildNasPrefix "L2" p.channel v p.exchange p.symbol (env.isoformat p.dateUtc) with
    | none => []
    | some pfx => listedParquet w pfx

/-- The inputs of a call, in listing order; `nas` says where they are read. -/
def Span.inputs (env : Env R) (w : World (Content W R)) (nas : Bool) (p : Partition) :
    Span → List Path
  | .hour _ => if nas then nasL1 env w p else localL1 env w p
  | .day => if nas then nasL2 env w p else localL2 env w p

/-- A channel without a schema has no inputs. -/
theorem Span.inputs_of_none {env : Env R} {w : World (Content W R)} {nas : Bool} {p : Partition}
    (hv : schemaVersion p.channel = none) (span : Span) : span.inputs env w nas p = [] := by
  cases span with
  | hour hourUtc => cases nas <;> simp [Span.inputs, nasL1, localL1, hv]
  | day => cases nas <;> simp [Span.inputs, nasL2, localL2, hv]

/-- The parquet file or object of an input. -/
def inputTable (w : World (Content W R)) (nas : Bool) : Path → Option (Table R) :=
  if nas then nasTable w else localTable w

/-- The directory a call writes to. -/
def Span.output (env : Env R) (p : Partition) (v : String) : Span → MergeOutput
  | .hour hourUtc => p.hourOutput env v hourUtc
  | .day => p.dayOutput env v

/-- The hash in the name of the output, over the inputs in copying order. -/
def Span.runId (env : Env R) (nas : Bool) : Span → List Path → String
  | .hour _, keys =>
    if nas then env.runId (sortKeys (keys.map legacyKeyToCanonical)) else env.runId keys
  | .day, keys => env.runId keys

/-- `compact_hour` or `compact_day` -/
def Span.compact [Timed R] (env : Env R) (nas : Bool) (p : Partition) :
    Span → Prog (Content W R) (Option Path)
  | .hour hourUtc => compactHour env nas p hourUtc
  | .day => compactDay env nas p

end

section

variable {W R : Type} [Timed R] [Blob (Content W R)] {env : Env R} {w : World (Content W R)}
  {nas : Bool} {p : Partition} {span : Span}

/-- What a call leaves and returns: its arguments are refused, or the listing failed,
or it merged its inputs. -/
inductive CallPost (env : Env R) (nas : Bool) (p : Partition) (span : Span)
    (w : World (Content W R)) : Except Exn (Option Path) → World (Content W R) → Prop where
  | refused (e) (hinputs : span.inputs env w nas p = []) : CallPost env nas p span w (.error e) w
  | unlisted (w') (hsame : SameButReplies w w') (hnas : nas = true)
      (hno : ¬ Answering w.replies) : CallPost env nas p span w (.ok none) w'
  | merge (r w' v) (hv : schemaVersion p.channel = some v)
      (hpost : MergePost env (inputTable w nas) (nas = true → Answering w.replies)
        (span.inputs env w nas p) (span.runId env nas) (span.output env p v) w r w') :
      CallPost env nas p span w r w'

variable {v : String} {r : Except Exn (Option Path)} {w' : World (Content W R)}

/-- A merge on disk, of the inputs of the span. -/
theorem callPost_of_mergePost {paths : List Path} (hv : schemaVersion p.channel = some v)
    (hpaths : paths = span.inputs env w false p)
    (h : MergePost env (localTable w) True paths (span.runId env false) (span.output env p v) w
      r w') : CallPost env false p span w r w' := by
  subst hpaths
  exact .merge r w' v hv (h.weaken (.refl w) fun _ => trivial)

theorem callPost_of_nasMergePost {keys : List Key} {runId : List Key → String}
    (hv : schemaVersion p.channel = some v) (hkeys : keys = span.inputs env w true p)
    (hrunId : runId = span.runId env true)
    (h : NasMergePost env keys runId (span.output env p v) w r w') :
    CallPost env true p span w r w' := by
  subst hkeys hrunId
  rcases h with ⟨rfl, hsame, hno⟩ | hpost
  · exact .unlisted w' hsame rfl hno
  · exact .merge r w' v hv (hpost.weaken (.refl w) fun h => h rfl)

/-- A channel without a schema is refused. -/
theorem compact_refused (hv : schemaVersion p.channel = none) :
    Eff.wp (span.compact env nas p) (CallPost env nas p span w) w := by
  have hthrow : span.compact (W := W) env nas p = throw .notImplementedError := by
    cases span with
    | hour hourUtc =>
      cases nas <;> simp [Span.compact, compactHour, compactHourNas, compactHourLocal, hv]
    | day => cases nas <;> simp [Span.compact, compactDay, compactDayNas, compactDayLocal, hv]
  rw [hthrow]
  exact .refused _ (Span.inputs_of_none hv _)

theorem compactHour_call (hv : schemaVersion p.channel = some v) (nas : Bool) (hourUtc : Nat) :
    Eff.wp (compactHour env nas p hourUtc) (CallPost env nas p (.hour hourUtc) w) w := by
  unfold compactHour
  cases nas with
  | false =>
    refine Eff.wp_mono (compactHourLocal_post hv hourUtc) fun r w' hpost => ?_
    exact callPost_of_mergePost hv (by simp [Span.inputs, localL1, hv]) hpost
  | true =>
    cases hflat : buildL1Prefix p.channel v p.exchange p.symbol (env.isoformat p.dateUtc) with
    | none =>
      rw [compactHourNas, hv]
      simp only [hflat]
      exact .refused _ (by simp [Span.inputs, nasL1, hv, hflat])
    | some flat =>
      have hlegacy := buildLegacyL1Prefix_eq_some hflat
      refine Eff.wp_mono (compactHourNas_post hv hflat hlegacy hourUtc) fun r w' hpost => ?_
      exact callPost_of_nasMergePost hv (by simp [Span.inputs, nasL1, hv, hflat, hlegacy]) rfl
        hpost

theorem compactDay_call (hv : schemaVersion p.channel = some v) (nas : Bool) :
    Eff.wp (compactDay env nas p) (CallPost env nas p .day w) w := by
  unfold compactDay
  cases nas with
  | false =>
    refine Eff.wp_mono (compactDayLocal_post hv) fun r w' hpost => ?_
    exact callPost_of_mergePost hv (by simp [Span.inputs, localL2, hv]) hpost
  | true =>
    cases hpfx : buildNasPrefix "L2" p.channel v p.exchange p.symbol
      (env.isoformat p.dateUtc) with
    | none =>
      rw [compactDayNas, hv]
      simp only [hpfx]
      exact .refused _ (by simp [Span.inputs, nasL2, hv, hpfx])
    | some pfx =>
      refine Eff.wp_mono (compactDayNas_post hv hpfx) fun r w' hpost => ?_
      exact callPost_of_nasMergePost hv (by simp [Span.inputs, nasL2, hv, hpfx]) rfl hpost

/-- **Spec of the four calls.** -/
theorem Span.compact_post (env : Env R) (nas : Bool) (p : Partition) (span : Span)
    (w : World (Content W R)) :
    CallPost env nas p span w ((span.compact env nas p).result w)
      ((span.compact env nas p).after w) := by
  cases hv : schemaVersion p.channel with
  | none => exact compact_refused hv
  | some v =>
    cases span with
    | hour hourUtc => exact compactHour_call hv nas hourUtc
    | day => exact compactDay_call hv nas

end

end MctraderData.Compactor
