import MctraderData.Compactor.Tiers
import MctraderData.Tier.DrMode
import MctraderData.Tier.ReaderCache

/-!
# mctrader-data — reading a partition through its tier

Model of `io/l1_reader.py`, `io/cold_reader.py` and of the facade `io/tier_reader.py`
that chooses between them. A partition path and an object key are component lists; the
facade looks its cache up by the path, the two readers by the object key they build
from it, and both names live in one cache.

A client's request returns the object or raises; what is observed of the exception is
its type name and its text. Python's `int` is modelled on digits, `datetime(y, m, d)` is
a parameter. `b""` is a parameter as well, since contents are abstract.
-/

namespace MctraderData.Tier

open Lib
open Nas
open Compactor (twoDigits)

/-- `needle in text` -/
def isIn (needle text : String) : Bool := text.toList.tails.any needle.toList.isPrefixOf

/-! ## the client -/

/-- An exception of the client, as the readers look at it. -/
structure S3Error where
  typeName : String
  text : String

structure Client (C : Type) [Blob C] where
  getObject : Key → Except S3Error (Obj C)
  headObject : Key → Except S3Error (Obj C)

variable {C : Type} [Blob C]

/-- A client whose every request is answered from a bucket. -/
def serving (objects : AList fun _ : Key => Obj C) : Client C where
  getObject key := match objects.lookup key with
    | some o => .ok o
    | none => .error ⟨"NoSuchKey", "An error occurred (NoSuchKey) when calling GetObject"⟩
  headObject key := match objects.lookup key with
    | some o => .ok o
    | none => .error ⟨"ClientError", "An error occurred (404) when calling HeadObject"⟩

/-! ## what one call meets -/

/-- The readings of `time.monotonic()` in one call of the facade, in their order. -/
structure Times where
  start : ℚ
  lookup : ℚ
  state : ℚ
  readerLookup : ℚ
  readerStore : ℚ
  record : ℚ
  store : ℚ
  ordered : [start, lookup, state, readerLookup, readerStore, record, store].Pairwise (· ≤ ·)

/-- The clock, the router's client and the local files while one call runs. -/
structure Scene (C : Type) [Blob C] where
  times : Times
  client : Option (Client C)
  /-- `exists()` and `read_bytes()` below the local base; the inner `none` is an error. -/
  localFile : Path → Option (Option C)

/-- The arguments of the constructors, and what is outside the repository. -/
structure ReaderConfig (C : Type) where
  partitionNormalization : Bool := true
  hasLocalBase : Bool := false
  cutoff : ℚ
  /-- `datetime(y, m, d, tzinfo=utc)`; `none` is the `ValueError`. -/
  datetime : ℕ → ℕ → ℕ → Option ℚ
  /-- `b""` -/
  noBytes : C

structure TierState (C : Type) where
  cache : ReaderCache C
  dr : DrMode
  /-- `L1Reader._etag_cache` -/
  etags : AList fun _ : Key => String := ∅

/-- A method of the readers; only the cache raises through it. -/
abbrev Reading (C : Type) := Eff (TierState C) CacheError

def cacheGet (now : ℚ) (key : Key) : Reading C (Option C) := do
  let s ← get
  set { s with cache := (s.cache.get now key).2 }
  pure (s.cache.get now key).1

def cachePut (now : ℚ) (key : Key) (value : C) : Reading C Unit :=
  Eff.within (·.cache) (fun cache s => { s with cache := cache }) id (ReaderCache.put now key value)

def updateDr (f : DrMode → DrMode) : Reading C Unit := modify fun s => { s with dr := f s.dr }

/-! ## results -/

/-- The statuses of `ReadResult` and `L1ReadResult`. -/
inductive ReaderStatus where
  | hitCache
  | hitNas
  | legacyNodeDefault
  | staleRefreshed
  | notFound
  | nasUnreachable
deriving DecidableEq, Repr

/-- `ReadResult` and `L1ReadResult`, with the fields of both. -/
structure ReaderResult (C : Type) where
  status : ReaderStatus
  data : C
  nasObjectKey : Key
  isLegacyNode : Bool := false
  cacheHit : Bool := false
  etag : String := ""

inductive TierReadStatus where
  | hitCache
  | hitNas
  | notFound
  | nasUnreachable
  | localFallback
deriving DecidableEq, Repr

structure TierReadResult (C : Type) where
  status : TierReadStatus
  data : C
  nasObjectKey : Key
  cacheHit : Bool := false
  isLegacy : Bool := false
  tier : String := ""
deriving DecidableEq

/-! ## L1Reader -/

/-- The arguments of `L1Reader.read`. -/
structure L1Partition where
  symbol : String
  date : String
  hour : ℕ

/-- `L1Reader._build_key`: the exchange is always `DEFAULT`. -/
def L1Partition.buildKey (p : L1Partition) : Key :=
  ["tier=L1", "exchange=DEFAULT", "symbol=" ++ p.symbol, "date=" ++ p.date,
    "hour=" ++ twoDigits p.hour,
    p.symbol ++ "_" ++ p.date ++ "_" ++ twoDigits p.hour ++ ".parquet"]

variable (cfg : ReaderConfig C) (scene : Scene C)

/-- `L1Reader._fetch_from_nas` -/
def fetchFromNas (key : Key) (statusOnSuccess : ReaderStatus) : Reading C (ReaderResult C) :=
  match scene.client with
  | none => pure { status := .nasUnreachable, data := cfg.noBytes, nasObjectKey := key }
  | some client =>
    match client.getObject key with
    | .error e =>
      if isIn "NoSuchKey" e.typeName || isIn "NoSuchKey" e.text || isIn "404" e.text then
        pure { status := .notFound, data := cfg.noBytes, nasObjectKey := key }
      else pure { status := .nasUnreachable, data := cfg.noBytes, nasObjectKey := key }
    | .ok o => do
      cachePut scene.times.readerStore key o.body
      modify fun s => { s with etags := s.etags.insert key o.etag }
      pure { status := statusOnSuccess, data := o.body, nasObjectKey := key, etag := o.etag }

/-- The ETag check on a cached entry: the result of the fetch if the entry is stale. -/
def refetchIfStale (key : Key) : Reading C (Option (ReaderResult C)) :=
  match scene.client with
  | none => pure none
  | some client =>
    match client.headObject key with
    | .error _ => pure none
    | .ok head => do
      let cachedEtag := ((← get).etags.lookup key).getD ""
      if head.etag ≠ "" ∧ (cachedEtag = "" ∨ head.etag ≠ cachedEtag) then
        let r ← fetchFromNas cfg scene key .staleRefreshed
        pure (some r)
      else pure none

/-- `L1Reader.read` -/
def l1Read (p : L1Partition) : Reading C (ReaderResult C) := do
  match ← cacheGet scene.times.readerLookup p.buildKey with
  | some cached =>
    -- the check stands in a `try` whose handler passes
    match (← Eff.orNone (refetchIfStale cfg scene p.buildKey)).join with
    | some r => pure r
    | none =>
      let etag := ((← get).etags.lookup p.buildKey).getD ""
      pure { status := .hitCache, data := cached, nasObjectKey := p.buildKey, cacheHit := true,
             etag := etag }
  | none => fetchFromNas cfg scene p.buildKey .hitNas

/-! ## ColdReader -/

/-- `_inject_node_default` -/
def injectNodeDefault (path : Path) : Key :=
  match path.findIdx? fun part => (hiveValue "date" part).isSome with
  | some i => path.insertIdx (i + 1) "node=DEFAULT"
  | none =>
    if 2 ≤ path.length then path.insertIdx (path.length - 1) "node=DEFAULT"
    else path ++ ["node=DEFAULT"]

/-- `"node=" not in partition_path` -/
def isLegacyNode (path : Path) : Bool := !path.any (isIn "node=")

/-- `_build_nas_object_key` -/
def buildNasObjectKey (path : Path) : Key :=
  if isLegacyNode path && cfg.partitionNormalization then injectNodeDefault path else path

/-- `ColdReader.read` -/
def coldRead (path : Path) : Reading C (ReaderResult C) := do
  let key := buildNasObjectKey cfg path
  let legacy := isLegacyNode path
  match ← cacheGet scene.times.readerLookup key with
  | some cached =>
    pure { status := .hitCache, data := cached, nasObjectKey := key, isLegacyNode := legacy,
           cacheHit := true }
  | none =>
    match scene.client with
    | none =>
      pure { status := .nasUnreachable, data := cfg.noBytes, nasObjectKey := key,
             isLegacyNode := legacy }
    | some client =>
      match client.getObject key with
      | .error e =>
        if isIn "NoSuchKey" e.typeName || isIn "404" e.text then
          pure { status := .notFound, data := cfg.noBytes, nasObjectKey := key,
                 isLegacyNode := legacy }
        else
          pure { status := .nasUnreachable, data := cfg.noBytes, nasObjectKey := key,
                 isLegacyNode := legacy }
      | .ok o =>
        cachePut scene.times.readerStore key o.body
        pure { status := if legacy then .legacyNodeDefault else .hitNas, data := o.body,
               nasObjectKey := key, isLegacyNode := legacy }

/-! ## TierReader -/

/-- `text.replace("-", "")` -/
def withoutDashes (text : String) : String := String.ofList (text.toList.filter (· ≠ '-'))

/-- `int(text)` on decimal digits; `none` is the `ValueError`. -/
def int (text : List Char) : Option ℕ :=
  if text.isEmpty then none
  else text.foldl (fun acc c => acc.bind fun n =>
    if c.isDigit then some (10 * n + (c.toNat - '0'.toNat)) else none) (some 0)

/-- One round of the loop of `_read_l1`. -/
def scanPart (found : L1Partition) (part : String) : L1Partition :=
  match hiveValue "symbol" part with
  | some symbol => { found with symbol := symbol }
  | none =>
    match hiveValue "date" part with
    | some date => { found with date := withoutDashes date }
    | none =>
      match hiveValue "hour" part with
      | some hour => { found with hour := (int hour.toList).getD 0 }
      | none => found

/-- What `_read_l1` hands to the L1 reader. -/
def l1Partition (path : Path) : L1Partition :=
  let found := path.foldl scanPart ⟨"", "", 0⟩
  if found.symbol ≠ "" ∧ found.date ≠ "" then found else ⟨"UNKNOWN", "00000000", 0⟩

/-- `_read_l1` -/
def readL1 (path : Path) : Reading C (ReaderResult C) := l1Read cfg scene (l1Partition path)

/-- `_parse_partition_date` -/
def parsePartitionDate (path : Path) : Option ℚ := do
  let date ← path.findSome? (hiveValue "date")
  let clean := (withoutDashes date).toList
  if clean.length = 8 then
    cfg.datetime (← int (clean.take 4)) (← int ((clean.drop 4).take 2)) (← int (clean.drop 6))
  else none

/-- The bytes of the local file that may stand in for the NAS. -/
def localCopy (path : Path) : Option C :=
  if cfg.hasLocalBase then
    match parsePartitionDate cfg path with
    | none => none
    | some day => if cfg.cutoff ≤ day then none else (scene.localFile path).join
  else none

/-- `_local_fallback_or_unreachable` -/
def localFallbackOrUnreachable (path : Path) (drState : Option DrState) (tier : String) :
    TierReadResult C :=
  if drState = some .unknownTier then
    { status := .nasUnreachable, data := cfg.noBytes, nasObjectKey := path, tier := tier }
  else match localCopy cfg scene path with
    | some data =>
      { status := .localFallback, data := data, nasObjectKey := path, isLegacy := true,
        tier := tier }
    | none =>
      { status := .nasUnreachable, data := cfg.noBytes, nasObjectKey := path, tier := tier }

/-- The statuses the facade takes for a success; `hit_cache` is not among them. -/
def nasSuccess (status : ReaderStatus) : Bool :=
  status ∈ [.hitNas, .staleRefreshed, .legacyNodeDefault]

/-- `TierReader.read` from the answer of the tier's reader on. -/
def handleNasResult (path : Path) (tier : String) (nas : ReaderResult C) :
    Reading C (TierReadResult C) := do
  let t := scene.times
  if nasSuccess nas.status then
    updateDr (·.recordSuccess t.record)
    cachePut t.store path nas.data
    pure { status := .hitNas, data := nas.data, nasObjectKey := nas.nasObjectKey, tier := tier }
  else
    updateDr (·.recordFailure t.record 503 ((t.record - t.start) * 1000))
    if nas.status = .notFound then
      pure { status := .notFound, data := cfg.noBytes, nasObjectKey := nas.nasObjectKey,
             tier := tier }
    else pure (localFallbackOrUnreachable cfg scene path none tier)

/-- The reader of a tier; everything but L1 is cold. -/
def readTier (path : Path) (tier : String) : Reading C (ReaderResult C) :=
  if tier = "L1" then readL1 cfg scene path else coldRead cfg scene path

/-- `TierReader.read` -/
def read (path : Path) : Reading C (TierReadResult C) := do
  match ← cacheGet scene.times.lookup path with
  | some cached =>
    pure { status := .hitCache, data := cached, nasObjectKey := path, cacheHit := true }
  | none =>
    updateDr (·.currentState scene.times.state)
    let dr := (← get).dr
    if dr.blocking then pure (localFallbackOrUnreachable cfg scene path (some dr.state) "")
    else match extractTier path with
      | none =>
        updateDr (·.setMode scene.times.record .unknownTier)
        pure { status := .nasUnreachable, data := cfg.noBytes, nasObjectKey := path }
      | some tier =>
        let nas ← readTier cfg scene path tier
        handleNasResult cfg scene path tier nas

end MctraderData.Tier
