import MctraderData.Wal.Segment

/-!
# mctrader-data — from a sealed segment to an L1 file

Model of `compactor/l1.py`.
`compact_segment` writes the parquet file of a sealed WAL segment, hands it to the
dual writer, and marks the segment compacted. The hook to the dual writer swallows
every exception, and a marked segment is never looked at again.
-/

namespace MctraderData.Compactor

open Lib
open Nas
open Wal

/-! ## L1Compactor -/

/-- `_parse_segment_meta` -/
structure SegmentMeta where
  exchange : String
  channel : String
  symbol : String
  date : String
  nodeId : String

/-- `_parse_segment_meta`; `none` is the `ValueError` of a path that is not
`wal/<exchange>/<channel>/<symbol>/<date>/<file>`. -/
def parseSegmentMeta : Path → Option SegmentMeta
  | "wal" :: exchange :: channel :: symbol :: date :: file =>
    if file = [] then none
    else some ⟨exchange, channel, symbol, date, parseNodeIdFromSegment (file.getLastD "")⟩
  | _ => none

/-- The channel-specific parts: the rows of one WAL record, with what its conversion may
raise, the arrow schema, and the lineage text. -/
structure Codec (W R : Type) where
  rowsOf : (channel nodeId collectorRunId : String) → (ingestSeq : Nat) → W → Except Exn (List R)
  arrowSchema : String → String
  lineage : Path → String

/-- The loop of `_convert_to_arrow` over the records from the given position on. -/
def Codec.convertFrom {W R : Type} (codec : Codec W R) (channel nodeId collectorRunId : String) :
    Nat → List W → Except Exn (List R)
  | _, [] => .ok []
  | ingestSeq, record :: rest => do
    let rows ← codec.rowsOf channel nodeId collectorRunId ingestSeq record
    let more ← convertFrom codec channel nodeId collectorRunId (ingestSeq + 1) rest
    pure (rows ++ more)

/-- `_convert_to_arrow`: the rows of every record, in order. -/
def Codec.convertToArrow {W R : Type} (codec : Codec W R)
    (channel nodeId collectorRunId : String) (records : List W) : Except Exn (List R) :=
  codec.convertFrom channel nodeId collectorRunId 0 records

/-- Where the L1 file of a sealed segment goes, with its run id. -/
structure L1Target where
  segment : SegmentMeta
  runId : String
  dir : Path
  file : String

def L1Target.path (t : L1Target) : Path := t.dir ++ [t.file]

variable {W R : Type} (env : Env R) (codec : Codec W R)

/-- Steps 1 to 3 of `compact_segment`: everything derived from the segment's path. -/
def l1Target (sealedPath : Path) : Except Exn L1Target :=
  match parseSegmentMeta sealedPath with
  | none => .error .valueError
  | some m =>
    match parseTsFromSegment (sealedPath.getLastD "") with
    | none => .error .valueError
    | some ts =>
      match schemaVersion m.channel with
      | none => .error .notImplementedError
      | some v =>
        let runId := env.runId [sealedPath.drop 1]
        .ok ⟨m, runId, tierDir v "L1" m.exchange m.symbol m.channel m.date ++ ["node=" ++ m.nodeId],
          "part-" ++ ts ++ "-" ++ runId ++ ".parquet"⟩

/-- What a target says about the path it came from. -/
theorem l1Target_ok {env : Env R} {sealedPath : Path} {target : L1Target}
    (h : l1Target env sealedPath = .ok target) :
    ∃ m ts v, parseSegmentMeta sealedPath = some m ∧
      parseTsFromSegment (sealedPath.getLastD "") = some ts ∧ schemaVersion m.channel = some v ∧
      target = ⟨m, env.runId [sealedPath.drop 1],
        tierDir v "L1" m.exchange m.symbol m.channel m.date ++ ["node=" ++ m.nodeId],
        "part-" ++ ts ++ "-" ++ env.runId [sealedPath.drop 1] ++ ".parquet"⟩ := by
  unfold l1Target at h
  split at h
  · cases h
  · rename_i m hm
    split at h
    · cases h
    · rename_i ts hts
      split at h
      · cases h
      · rename_i v hv
        cases h
        exact ⟨m, ts, v, hm, hts, hv, rfl⟩

variable [Timed R]

/-- The parquet file of the records of a segment: converted and sorted by `ts_utc`. -/
def l1Table (target : L1Target) (records : List W) : Except Exn (Table R) := do
  let rows ← codec.convertToArrow target.segment.channel target.segment.nodeId target.runId records
  pure ⟨codec.arrowSchema target.segment.channel,
    env.iterBatches (rows.insertionSort fun a b => tsUtc a ≤ tsUtc b), true⟩

variable [Blob (Content W R)]

/-- Step 5 without its write: read the segment and convert its records. -/
def segmentTable (w : World (Content W R)) (sealedPath : Path) (target : L1Target) :
    Except Exn (Table R) :=
  match w.files.lookup sealedPath with
  | none => .error .fileNotFoundError
  | some (.ndjson records) => l1Table env codec target records
  | some _ => .error .valueError

/-- The content of the L1 file after step 5: what is there already, or the converted
records of the segment. -/
def l1Content (w : World (Content W R)) (sealedPath : Path) (target : L1Target) :
    Except Exn (Content W R) :=
  match w.files.lookup target.path with
  | some c => .ok c
  | none => (segmentTable env codec w sealedPath target).map .parquet

/-- `_put_l1_nas`: every exception of `put_l1` is logged and dropped. -/
def putL1Nas (path : Path) : Prog (Content W R) Unit :=
  tryCatch (do
    let _ ← putL1 path
    pure ()) fun _ => pure ()

/-- `marker.touch()` if the marker is missing. -/
def touch (path : Path) : Prog (Content W R) Unit := do
  if ((← get).files.lookup path).isSome then pure ()
  else writeFile path (.text "")

def ofExcept {α : Type} : Except Exn α → Prog (Content W R) α
  | .ok a => pure a
  | .error e => throw e

/-- Steps 4 and 5: an L1 file that exists is left alone. -/
def ensureL1 (sealedPath : Path) (target : L1Target) : Prog (Content W R) Unit := do
  let w ← get
  if (w.files.lookup target.path).isSome then pure ()
  else
    let table ← ofExcept (segmentTable env codec w sealedPath target)
    writeFile target.path (.parquet table)

def lineagePath (target : L1Target) : Path := target.dir ++ ["lineage-" ++ target.runId ++ ".json"]

/-- The hook after the rename; `dual` says whether a dual writer is injected. -/
def nasHook (dual : Bool) (path : Path) : Prog (Content W R) Unit :=
  if dual then putL1Nas path else pure ()

/-- `L1Compactor.compact_segment` -/
def compactSegment (dual : Bool) (sealedPath : Path) : Prog (Content W R) Path := do
  let target ← ofExcept (l1Target env sealedPath)
  mkdir target.dir
  ensureL1 env codec sealedPath target
  nasHook dual target.path
  writeFile (lineagePath target) (.text (codec.lineage sealedPath))
  touch (compactedPath sealedPath)
  pure target.path

/-! ## the phases of compact_segment -/

/-- A compaction in progress: the table that is still to be written, if any. -/
structure Job (R : Type) where
  sealedPath : Path
  target : L1Target
  table : Option (Table R)

/-- Everything up to the write: the existing L1 file is found, or the segment is read. -/
def readSegment (sealedPath : Path) : Prog (Content W R) (Job R) := do
  let target ← ofExcept (l1Target env sealedPath)
  mkdir target.dir
  let w ← get
  if (w.files.lookup target.path).isSome then pure ⟨sealedPath, target, none⟩
  else
    let table ← ofExcept (segmentTable env codec w sealedPath target)
    pure ⟨sealedPath, target, some table⟩

def writeSegment (job : Job R) : Prog (Content W R) Unit :=
  match job.table with
  | none => pure ()
  | some table => writeFile job.target.path (.parquet table)

/-- The lineage file and the marker. -/
def markSegment (job : Job R) : Prog (Content W R) Path := do
  writeFile (lineagePath job.target) (.text (codec.lineage job.sealedPath))
  touch (compactedPath job.sealedPath)
  pure job.target.path

/-- `compact_segment` is its phases in a row. -/
theorem compactSegment_eq_phases (dual : Bool) (sealedPath : Path) :
    compactSegment env codec dual sealedPath = (do
      let job ← readSegment env codec sealedPath
      writeSegment job
      nasHook dual job.target.path
      markSegment codec job : Prog (Content W R) Path) := by
  refine Eff.eq_of_wp fun Q w => ?_
  unfold compactSegment readSegment
  cases l1Target env sealedPath with
  | error e => rfl
  | ok target =>
    simp only [ofExcept, mkdir, ensureL1, Eff.wp_bind, Eff.wp_pure, Eff.wp_modify, Eff.wp_get]
    cases w.files.lookup target.path with
    | some c => simp [writeSegment, markSegment]
    | none =>
      cases segmentTable env codec { w with dirs := target.dir :: w.dirs } sealedPath target with
      | error e => simp
      | ok table => simp [writeSegment, markSegment]

end MctraderData.Compactor
