import MctraderData.Migration.HarnessVerdict

/-!
# mctrader-data — the backfill of closed days

Model of `nas_migration/backfill_orchestrator.py`. A run discovers the parquet files of
closed days, gives each a chunk, and hands the chunks that are not yet recorded as
verified to a pool of workers. The checkpoint, one row for each chunk id, is what survives
a run; its rows alone decide what `run` returns.

The workers interleave. A step of a worker is one request to the NAS or what it does
between two requests, so that the HEAD and the PUT of an upload are two steps; `verify`,
which only reads, is one. A process may die between any two steps, which leaves the files,
the bucket and the checkpoint as they are.

The harness is a parameter that must not write (`InvariantHarness.verify` does not, see
`ofHarness`). The date parser and the hash of the chunk ids are parameters too. Metrics,
the evidence pack and the lock file are left out, and the data root has no Hive component
of its own.
-/

namespace MctraderData.Backfill

open Lib
open Nas
open Harness (InvariantStatus InvariantHarness ReadOnly basename)
open Compactor (hasSuffix)

variable {C : Type} [Blob C]

/-! ## chunks -/

structure ChunkSpec where
  symbol : String
  date : String
  sourcePath : Path
  nasObjectKey : Key
  nasPartitionPrefix : Key
  isLegacyNode : Bool
  chunkId : String

/-- `ChunkResult.status` -/
inductive ChunkStatus where
  | chunkVerified
  | chunkSkippedResumed
  | chunkQuarantined
  | chunkBlocked
  | chunkSopSkipped
deriving DecidableEq, Repr

/-- The arguments of the constructor, and what is outside the module. -/
structure Orchestrator (C : Type) [Blob C] where
  channel : String := "orderbooksnapshot"
  tier : String := "L2"
  nasPartitionRoot : Key
  verifyRetryBudget : ℕ := 3
  /-- `self._harness.verify(...).status` -/
  verify : Path → Key → Option (List Path) → Option (List Key) → Prog C InvariantStatus
  verify_readOnly : ∀ dir pfx files objects, ReadOnly (verify dir pfx files objects)
  /-- `sha256(f"{symbol}|{date}|{source_path}")[:16]` -/
  hashId : String → String → Path → String
  /-- `_parse_date`, on days since the epoch; `none` is the `ValueError`. -/
  parseDate : String → Option Int

/-- `_extract_hive_value` -/
def extractHiveValue (path : Path) (label : String) : Option String :=
  path.findSome? (hiveValue label)

namespace Orchestrator

variable (o : Orchestrator C)

/-- The files below `market/<channel>/schema_version=*/tier=<tier>`. -/
def isSource (path : Path) : Bool :=
  match path with
  | "market" :: channel :: version :: tier :: rest =>
    decide (channel = o.channel) && (hiveValue "schema_version" version).isSome &&
      decide (tier = "tier=" ++ o.tier) && !rest.isEmpty && hasSuffix ".parquet" (basename path)
  | _ => false

/-- A source file whose date parses and is before `today`. -/
def isClosedDay (today : Int) (path : Path) : Bool :=
  o.isSource path && match (extractHiveValue path "date").bind o.parseDate with
    | some day => decide (day < today)
    | none => false

/-- `_discover_partitions`; the order is that of submission only. -/
def discoverPartitions (today : Int) (w : World C) : List Path :=
  w.files.keys.filter (o.isClosedDay today)

/-- `nas_partition_prefix` -/
def nasPartition (path : Path) : Key :=
  let exchange := match extractHiveValue path "exchange" with
    | some "" | none => "UNKNOWN"
    | some exchange => exchange
  let hourSegment := match extractHiveValue path "hour" with
    | some hour => ["hour=" ++ hour]
    | none => []
  o.nasPartitionRoot ++ ["exchange=" ++ exchange,
    "symbol=" ++ (extractHiveValue path "symbol").getD "UNKNOWN",
    "date=" ++ (extractHiveValue path "date").getD "unknown"] ++ hourSegment ++
    ["node=" ++ (extractHiveValue path "node").getD "DEFAULT"]

/-- `nas_object_key`: schema version and tier of the path are not part of it. -/
def objectKey (path : Path) : Key := o.nasPartition path ++ [basename path]

def chunkId (path : Path) : String :=
  o.hashId ((extractHiveValue path "symbol").getD "UNKNOWN")
    ((extractHiveValue path "date").getD "unknown") path

/-- `_build_chunk_spec` -/
def buildChunkSpec (path : Path) : ChunkSpec where
  symbol := (extractHiveValue path "symbol").getD "UNKNOWN"
  date := (extractHiveValue path "date").getD "unknown"
  sourcePath := path
  nasObjectKey := o.objectKey path
  nasPartitionPrefix := o.nasPartition path
  isLegacyNode := (extractHiveValue path "node").isNone
  chunkId := o.chunkId path

end Orchestrator

/-! ## the checkpoint -/

inductive RowStatus where
  | pending
  | inFlight
  | verified
  | quarantined
  | blocked
deriving DecidableEq, Repr

structure Row (C : Type) [Blob C] where
  symbol : String
  date : String
  status : RowStatus
  sha256 : Option (Blob.Digest C) := none
  failInvariant : Option InvariantStatus := none
  retryCount : ℕ := 0

/-- `backfill_checkpoint`, by its primary key. -/
abbrev Checkpoint (C : Type) [Blob C] := AList fun _ : String => Row C

/-- `INSERT ... ON CONFLICT(chunk_id) DO NOTHING` -/
def insertPending (cp : Checkpoint C) (chunk : ChunkSpec) : Checkpoint C :=
  if chunk.chunkId ∈ cp then cp
  else cp.insert chunk.chunkId { symbol := chunk.symbol, date := chunk.date, status := .pending }

/-- `upsert_pending` -/
def upsertPending (cp : Checkpoint C) (chunks : List ChunkSpec) : Checkpoint C :=
  chunks.foldl insertPending cp

/-- `get_status` -/
def getStatus (cp : Checkpoint C) (chunkId : String) : RowStatus :=
  match cp.lookup chunkId with
  | some row => row.status
  | none => .pending

/-- `update_status`: an UPDATE, which adds no row. -/
def updateStatus (cp : Checkpoint C) (chunkId : String) (newStatus : RowStatus)
    (sha256 : Option (Blob.Digest C)) (failInvariant : Option InvariantStatus) (retryCount : ℕ) :
    Checkpoint C :=
  match cp.lookup chunkId with
  | none => cp
  | some row => cp.insert chunkId { row with
      status := newStatus
      sha256 := sha256
      failInvariant := failInvariant
      retryCount := retryCount }

/-- `_count_statuses` -/
def countStatus (cp : Checkpoint C) (status : RowStatus) : ℕ :=
  cp.entries.countP fun row => decide (row.2.status = status)

/-! ## the two requests of an upload -/

/-- The handlers of `NASUploader.put` without `suppress_enqueue`. -/
def putHandler (key : Key) (data : C) : Exn → Prog C (PutResult C)
  | .endpointConnectionError => queuedResult ⟨key, data, Blob.sha256 data⟩
  | .clientError code =>
    match classify4xx code with
    | some reason => throw (.nasOperationalAlert code reason key)
    | none => queuedResult ⟨key, data, Blob.sha256 data⟩
  | e => throw e

/-- The HEAD of `_put_with_idempotency`; `none` goes on to the PUT. -/
def headRequest (key : Key) (data : C) : Prog C (Option (PutResult C)) :=
  tryCatch (do headDecision key (Blob.sha256 data) (← clientHeadObject key)) fun
    | .clientError "404" => pure none
    | e => throw e

/-- The PUT of `_put_with_idempotency`. -/
def writeRequest (key : Key) (data : C) : Prog C (PutResult C) := do
  let etag ← clientPutObject key data (Blob.sha256 data)
  pure ⟨.uploaded, .etag etag⟩

/-- `put` up to the answer of the HEAD. -/
def putHead (key : Key) (data : C) : Prog C (Option (PutResult C)) :=
  tryCatch (headRequest key data) fun e => do
    let r ← putHandler key data e
    pure (some r)

/-- The rest of `put`. -/
def putWrite (key : Key) (data : C) : Prog C (PutResult C) :=
  tryCatch (writeRequest key data) (putHandler key data)

/-! ## workers -/

/-- What survives a run. -/
structure Store (C : Type) [Blob C] where
  world : World C
  checkpoint : Checkpoint C

def Store.record (st : Store C) (chunkId : String) (newStatus : RowStatus)
    (sha256 : Option (Blob.Digest C)) (failInvariant : Option InvariantStatus) (retryCount : ℕ) :
    Store C :=
  { st with checkpoint :=
      updateStatus st.checkpoint chunkId newStatus sha256 failInvariant retryCount }

/-- Where a worker stands in `_process_chunk`. -/
inductive Phase (C : Type) where
  | waiting
  /-- The bytes are read, the HEAD comes next. -/
  | sending (data : C)
  /-- The HEAD said to write. -/
  | writing (data : C)
  /-- The bytes were sent; `attempt` checks have failed. -/
  | checking (data : C) (attempt : ℕ)
  | done (status : ChunkStatus)
  /-- `fut.cancel()` before the start -/
  | cancelled

/-- No further step of the worker is to come. -/
def Phase.settled : Phase C → Bool
  | .done _ | .cancelled => true
  | _ => false

structure Worker (C : Type) where
  spec : ChunkSpec
  phase : Phase C

namespace Orchestrator

variable (o : Orchestrator C)

/-- The switch on `PutResult.status`. -/
def afterPut (spec : ChunkSpec) (data : C) (r : PutResult C) (st : Store C) :
    Phase C × Store C :=
  match r.status with
  | .hardFloorBlocked => (.done .chunkBlocked, st.record spec.chunkId .blocked none none 0)
  | .queued => (.done .chunkSkippedResumed, st)
  | _ => (.checking data 0, st)

/-- `harness.verify`: on the file at first, on the partition in the retries. -/
def verifyChunk (spec : ChunkSpec) (attempt : ℕ) : Prog C InvariantStatus :=
  if attempt = 0 then
    o.verify spec.sourcePath.dropLast spec.nasPartitionPrefix (some [spec.sourcePath])
      (some [spec.nasObjectKey])
  else o.verify spec.sourcePath.dropLast spec.nasPartitionPrefix none none

/-- The switch on `InvariantResult.status`. -/
def afterVerify (spec : ChunkSpec) (data : C) (attempt : ℕ) (status : InvariantStatus)
    (st : Store C) : Phase C × Store C :=
  if status = .allPass then
    (.done .chunkVerified,
      st.record spec.chunkId .verified (some (Blob.sha256 data)) none 0)
  else if attempt < o.verifyRetryBudget then (.checking data (attempt + 1), st)
  else (.done .chunkQuarantined,
    st.record spec.chunkId .quarantined none (some status) o.verifyRetryBudget)

/-- One step of `_process_chunk`; an exception ends it with the row as it is. -/
def workStep (manualGate : Bool) (spec : ChunkSpec) (phase : Phase C) (st : Store C) :
    Phase C × Store C :=
  match phase with
  | .waiting =>
    if getStatus st.checkpoint spec.chunkId = .verified then (.done .chunkSkippedResumed, st)
    else if manualGate then (.done .chunkSopSkipped, st)
    else
      let st := st.record spec.chunkId .inFlight none none 0
      match st.world.files.lookup spec.sourcePath with
      | none => (.done .chunkSkippedResumed, st)
      | some data => (.sending data, st)
  | .sending data =>
    match putHead spec.nasObjectKey data st.world with
    | (.ok (some r), w) => afterPut spec data r { st with world := w }
    | (.ok none, w) => (.writing data, { st with world := w })
    | (.error _, w) => (.done .chunkSkippedResumed, { st with world := w })
  | .writing data =>
    match putWrite spec.nasObjectKey data st.world with
    | (.ok r, w) => afterPut spec data r { st with world := w }
    | (.error _, w) => (.done .chunkSkippedResumed, { st with world := w })
  | .checking data attempt =>
    match o.verifyChunk spec attempt st.world with
    | (.ok status, w) => o.afterVerify spec data attempt status { st with world := w }
    | (.error _, w) => (.done .chunkSkippedResumed, { st with world := w })
  | .done status => (.done status, st)
  | .cancelled => (.cancelled, st)

end Orchestrator

/-! ## runs -/

inductive BackfillStatus where
  | allChunksVerified
  | chunkInvariantFailed
  | chunkBlocked
  | checkpointResumable
deriving DecidableEq, Repr

structure BackfillResult where
  status : BackfillStatus
  totalChunks : ℕ := 0
  verifiedChunks : ℕ := 0
  quarantinedChunks : ℕ := 0
  blockedChunks : ℕ := 0
  resumableChunks : ℕ := 0
deriving DecidableEq, Repr

/-- Phase E of `run`, from all rows of the checkpoint. -/
def finalResult (totalChunks : ℕ) (cp : Checkpoint C) : BackfillResult :=
  let quarantined := countStatus cp .quarantined
  let blocked := countStatus cp .blocked
  let resumable := countStatus cp .pending + countStatus cp .inFlight
  { status :=
      if 0 < blocked then .chunkBlocked
      else if 0 < quarantined then .chunkInvariantFailed
      else if 0 < resumable then .checkpointResumable
      else .allChunksVerified
    totalChunks := totalChunks
    verifiedChunks := countStatus cp .verified
    quarantinedChunks := quarantined
    blockedChunks := blocked
    resumableChunks := resumable }

/-- A run in progress; `today` is the date it discovered with. -/
structure Job (C : Type) where
  today : Int
  totalChunks : ℕ
  workers : List (Worker C)

/-- The source tree, the NAS, the checkpoint, the run in progress, and what the last run
returned if nothing happened since. -/
structure Site (C : Type) [Blob C] where
  store : Store C
  job : Option (Job C) := none
  returned : Option (BackfillResult × Int) := none

inductive Action (C : Type) where
  /-- Between runs a file is written or deleted. -/
  | change (path : Path) (content : Option C)
  /-- `run` is called on the day `today`. -/
  | start (today : Int) (manualGate : Bool)
  /-- Worker `i` takes a step. -/
  | work (i : ℕ) (manualGate : Bool)
  /-- After a completed chunk the gate is closed: what has not started is cancelled. -/
  | cancel
  /-- The pool is done and `run` returns. -/
  | finish
  /-- The process dies. -/
  | crash

def changeFile (w : World C) (path : Path) : Option C → World C
  | some c => { w with files := w.files.insert path c }
  | none => { w with files := w.files.erase path }

def Worker.cancel (wk : Worker C) : Worker C :=
  match wk.phase with
  | .waiting => { wk with phase := .cancelled }
  | _ => wk

namespace Orchestrator

variable (o : Orchestrator C)

/-- Phases B and C of `run`: the pool with the chunks that are not verified. -/
def submit (today : Int) (st : Store C) : Site C :=
  let chunks := (o.discoverPartitions today st.world).map o.buildChunkSpec
  let cp := upsertPending st.checkpoint chunks
  let pending := chunks.filter fun chunk => decide (getStatus cp chunk.chunkId ≠ .verified)
  { store := { st with checkpoint := cp }
    job := some ⟨today, chunks.length, pending.map fun chunk => ⟨chunk, .waiting⟩⟩ }

def step (s : Site C) : Action C → Option (Site C)
  | .change path content =>
    match s.job with
    | some _ => none
    | none => some { store := { s.store with world := changeFile s.store.world path content } }
  | .start today manualGate =>
    match s.job with
    | some _ => none
    | none =>
      if manualGate then
        some { store := s.store, returned := some ({ status := .checkpointResumable }, today) }
      else some (o.submit today s.store)
  | .work i manualGate =>
    match s.job with
    | none => none
    | some job =>
      match job.workers[i]? with
      | none => none
      | some wk =>
        let next := o.workStep manualGate wk.spec wk.phase s.store
        some { store := next.2
               job := some { job with workers := job.workers.set i ⟨wk.spec, next.1⟩ } }
  | .cancel =>
    match s.job with
    | none => none
    | some job =>
      if job.workers.any fun wk => wk.phase.settled then
        some { s with job := some { job with workers := job.workers.map Worker.cancel } }
      else none
  | .finish =>
    match s.job with
    | none => none
    | some job =>
      if job.workers.all fun wk => wk.phase.settled then
        some { store := s.store
               returned := some (finalResult job.totalChunks s.store.checkpoint, job.today) }
      else none
  | .crash => some { store := s.store }

/-- Histories of runs, changes of the tree and crashes, from any tree and any bucket. -/
def machine : Machine (Site C) (Action C) where
  init s := ∃ w, s = { store := ⟨w, ∅⟩ }
  step := o.step

/-- The orchestrator with the harness of the repository. -/
def ofHarness (h : InvariantHarness C) (channel tier : String) (root : Key)
    (hashId : String → String → Path → String) (parseDate : String → Option Int) :
    Orchestrator C where
  channel := channel
  tier := tier
  nasPartitionRoot := root
  verify dir pfx files objects := do
    let r ← h.verify dir pfx files objects
    pure r.status
  verify_readOnly dir pfx files objects :=
    (Harness.verify_readOnly h dir pfx files objects).bind fun _ => Eff.keeps_pure _
  hashId := hashId
  parseDate := parseDate

end Orchestrator

end MctraderData.Backfill
