import Mathlib.Data.List.DropRight
import Mathlib.Data.List.Infix
import Mathlib.Data.Rat.Defs
import MctraderData.Compactor.Layout
import MctraderData.Nas.Copy

/-!
# mctrader-data — the re-key migration

Model of `nas_migration/rekey.py`. Every legacy object `l1/market/…` of a channel is moved
to its flat key in three steps: copy, verify by two HEADs, delete the old key. A manifest
file records how far each object has come, so that a later run resumes where a crash cut
the last one off, and a sentinel file marks an object as done for good.

The process may die before any effect it has on the bucket or on the disk. The deaths are
a stream, one value per such point; what was written before stays written, and the state
after a run that died is the state it died in. Keys and paths are components, so the text
the code works on (`partition_id`, the exchange filter) is that of `keyText`.

Metrics, log lines, timestamps and durations are left out, as is the lock file: runs
follow one another.
-/

namespace MctraderData.Migration

open Lib
open Nas
open Compactor (hasSuffix)

/-! ## the manifest -/

/-- `_VALID_STATUSES` -/
inductive Status where
  | pending
  | copying
  | copied
  | verifying
  | verified
  | deleting
  | deleted
  | done
  | failed
  | legacyNoSha256
  | rolledBack
deriving DecidableEq, Repr

/-- `_MID_FLIGHT_STATUSES` -/
def Status.midFlight : Status → Bool
  | .pending | .copying | .copied | .verifying | .verified | .deleting => true
  | _ => false

/-- The statuses from which a run goes on behind the copy. -/
def Status.skipsCopy : Status → Bool
  | .copied | .verifying | .verified | .deleting => true
  | _ => false

/-- The statuses from which a run goes on behind the verification. -/
def Status.skipsVerify : Status → Bool
  | .verified | .deleting => true
  | _ => false

variable {C : Type} [Blob C]

/-- `PartitionEntry`, without its timestamps. -/
structure PartitionEntry (C : Type) [Blob C] where
  partitionId : String
  oldKey : Key
  newKey : Key
  status : Status := .pending
  oldHead : Head C := ⟨"", none, none, 0⟩
  newHead : Head C := ⟨"", none, none, 0⟩
  preDeleteVersionId : Option String := none
  retryCount : Nat := 0
  errorMessage : Option String := none

/-- The entries of a `RekeyManifest`, in the order of the dictionary. -/
abbrev Manifest (C : Type) [Blob C] := List (PartitionEntry C)

namespace Manifest

/-- `upsert_pending`: an entry that is there stays as it is. -/
def upsertPending (m : Manifest C) (partitionId : String) (oldKey newKey : Key) : Manifest C :=
  if m.any fun e => e.partitionId = partitionId then m
  else m ++ [{ partitionId := partitionId, oldKey := oldKey, newKey := newKey }]

/-- `update_status`, with the fields it sets; nothing happens to an unknown partition. -/
def update (m : Manifest C) (partitionId : String) (f : PartitionEntry C → PartitionEntry C) :
    Manifest C :=
  m.map fun e => if e.partitionId = partitionId then f e else e

/-- `iter_resumable` -/
def resumable (m : Manifest C) : List (PartitionEntry C) := m.filter fun e => e.status.midFlight

/-- `iter_done` -/
def finished (m : Manifest C) : List (PartitionEntry C) := m.filter fun e => e.status = .done

end Manifest

/-! ## the process and what it acts on -/

/-- What the constructor of `RekeyOrchestrator` is given. -/
structure RekeyConfig where
  exchange : String
  channel : String
  batchSize : Nat := 500
  dryRun : Bool := true
  threshold : ℚ := 0
  maxPartitions : Option Nat := none
  iUnderstandIrreversible : Bool := false

/-- What is outside the process during one run: how much disk is free, and before which
partition a SIGTERM has arrived. -/
structure Launch where
  diskFree : Nat
  sigterm : Nat → Bool

/-- How a run ends that does not return. -/
inductive Abort where
  | raised (e : Exn)
  | systemExit (code : Nat)
  /-- The process died. -/
  | crashed
deriving DecidableEq, Repr

/-- The bucket, the audit directory and the memory of the process. -/
structure Site (C : Type) [Blob C] where
  world : World C
  /-- The versioning status of the bucket. -/
  versioning : String
  /-- The manifest files, by name. -/
  manifests : AList fun _ : String => Manifest C
  /-- The sentinel files below `rekey-sentinels`. -/
  sentinels : List Path
  /-- The `DeleteObject` requests issued so far, newest first, with the bucket they met. -/
  deletes : List (Key × AList fun _ : Key => Obj C)
  /-- The manifest the process holds. -/
  memory : Manifest C
  /-- Whether the process dies at the points to come. -/
  crashes : Stream' Bool

/-- The objects of the bucket. -/
abbrev Site.nas (s : Site C) : AList fun _ : Key => Obj C := s.world.nas

/-- A block of the migration. -/
abbrev Job (C : Type) [Blob C] := Eff (Site C) Abort

/-- A point at which the process may die. -/
def alive : Job C Unit := do
  let s ← get
  set { s with crashes := s.crashes.tail }
  if s.crashes.head then throw .crashed

/-- A call of the uploader. -/
def onNas {α : Type} (m : Prog C α) : Job C α := do
  alive
  Eff.within Site.world (fun w s => { s with world := w }) Abort.raised m

/-- `try … except Exception`: an exception is a value, the death of the process is not. -/
def attempt {α : Type} (m : Job C α) : Job C (Except Exn α) :=
  tryCatch (do pure (.ok (← m))) fun
    | .raised e => pure (.error e)
    | stop => throw stop

def setEntry (partitionId : String) (f : PartitionEntry C → PartitionEntry C) : Job C Unit :=
  modify fun s => { s with memory := s.memory.update partitionId f }

def setStatus (partitionId : String) (status : Status) : Job C Unit :=
  setEntry partitionId fun e => { e with status := status }

section

variable (cfg : RekeyConfig)

/-- The name of `_manifest_path`. -/
def manifestName : String := "rekey-l1-manifest-" ++ cfg.exchange ++ "-" ++ cfg.channel ++ ".yaml"

/-- `RekeyManifest._load` -/
def load : Job C Unit :=
  modify fun s => { s with memory := (s.manifests.lookup (manifestName cfg)).getD [] }

/-- `write_atomic` -/
def writeAtomic : Job C Unit := do
  alive
  modify fun s => { s with manifests := s.manifests.insert (manifestName cfg) s.memory }

end

/-! ## names -/

/-- `str.replace("/", "-")` -/
def dashes (text : List Char) : List Char := text.map fun c => if c = '/' then '-' else c

/-- `str.replace("..", "")` -/
def withoutDots : List Char → List Char
  | '.' :: '.' :: rest => withoutDots rest
  | c :: rest => c :: withoutDots rest
  | [] => []

/-- `_build_partition_id` -/
def buildPartitionId (oldKey : Key) : String :=
  String.ofList ((dashes (keyText (legacyKeyToCanonical oldKey))).rdropWhile (· = '-'))

/-- `_build_new_key` -/
def buildNewKey (oldKey : Key) : Key := legacyKeyToCanonical oldKey

/-- The first 16 hex digits of a sha256, which the sentinel files are named by. -/
abbrev Digest16 := List Char → String

section

variable (digest : Digest16) (cfg : RekeyConfig)

/-- `_sentinel_path`, below `rekey-sentinels` -/
def sentinelPath (partitionId : String) : Path :=
  [cfg.exchange, cfg.channel, digest (withoutDots (dashes partitionId.toList)) ++ ".completed"]

/-- `_write_sentinel` -/
def writeSentinel (partitionId : String) : Job C Unit := do
  alive
  modify fun s =>
    if sentinelPath digest cfg partitionId ∈ s.sentinels then s
    else { s with sentinels := sentinelPath digest cfg partitionId :: s.sentinels }

end

/-- The object that marks `key` as compacted. -/
def compactedMarker (key : Key) : Key := key.dropLast ++ [key.getLastD "" ++ ".compacted"]

/-- The filters of `_discover_l1_objects` on a listing. -/
def candidateKeys (exchange : String) (allKeys : List Key) : List Key :=
  let filtered := allKeys.filter fun k =>
    decide (("/exchange=" ++ exchange ++ "/").toList <:+: keyText k) &&
      decide ("/tier=L1/".toList <:+: keyText k)
  filtered.filter fun k =>
    !hasSuffix ".compacted" (k.getLastD "") && decide (compactedMarker k ∈ filtered)

/-- `build_legacy_l1_discovery_prefix` -/
def legacyDiscoveryPrefix (channel : String) : Key := ["l1", "market", channel]

/-- `_discover_l1_objects` -/
def discoverL1Objects (cfg : RekeyConfig) : Job C (List Key) := do
  if cfg.channel = "" then throw (.raised .valueError)
  let allKeys ← onNas (clientListObjects (legacyDiscoveryPrefix cfg.channel))
  pure (candidateKeys cfg.exchange allKeys)

/-! ## one partition -/

/-- `type(exc).__name__` -/
def excName : Exn → String
  | .endpointConnectionError => "EndpointConnectionError"
  | .clientError _ => "ClientError"
  | .botoCoreError => "BotoCoreError"
  | .conditionalWriteConflict _ => "ConditionalWriteConflict"
  | .nasOperationalAlert _ _ _ => "NASOperationalAlert"
  | .promotionVerifyError _ => "PromotionVerifyError"
  | .fileNotFoundError => "FileNotFoundError"
  | .sameFileError => "SameFileError"
  | .osError => "OSError"
  | .valueError => "ValueError"
  | .runtimeError => "RuntimeError"
  | .notImplementedError => "NotImplementedError"
  | .arrowInvalid => "ArrowInvalid"
  | .invalidOperation => "InvalidOperation"

/-- `if entry.new_version_id:` -/
def truthy : Option String → Bool
  | some text => decide (text ≠ "")
  | none => false

/-- The four checks of `_verify_4head`. HEAD-1, the ETag, is advisory: it changes nothing. -/
def headsPass (src dst : Head C) : Bool :=
  truthy dst.versionId &&
    (match src.sha256, dst.sha256 with
      | none, none => true
      | some s, some d => decide (s = d)
      | _, _ => false) &&
    decide (src.contentLength = dst.contentLength)

/-- `_verify_4head`; the two HEADs if all checks pass. -/
def verify4head (entry : PartitionEntry C) : Job C (Option (Head C × Head C)) := do
  match ← attempt (onNas (headObject entry.oldKey)) with
  | .error (.clientError code) =>
    if code = "404" then pure none else throw (.raised (.clientError code))
  | .error e => throw (.raised e)
  | .ok src =>
    match ← attempt (onNas (headObject entry.newKey)) with
    | .error (.clientError _) => pure none
    | .error e => throw (.raised e)
    | .ok dst =>
      setEntry entry.partitionId fun e => { e with oldHead := src, newHead := dst }
      pure (if headsPass src dst then some (src, dst) else none)

section

variable (digest : Digest16) (cfg : RekeyConfig)

/-- The end of a partition that failed. -/
def fail (partitionId : String) (message : String) : Job C Status := do
  setEntry partitionId fun e =>
    { e with status := .failed, errorMessage := some message, retryCount := e.retryCount + 1 }
  writeAtomic cfg
  pure .failed

/-- Step A when the source is gone: the destination decides. -/
def sourceNotFound (entry : PartitionEntry C) : Job C Status := do
  match ← attempt (onNas (headObject entry.newKey)) with
  | .ok dst =>
    match dst.sha256 with
    | some _ =>
      setEntry entry.partitionId fun e => { e with
        status := .done
        newHead := { e.newHead with etag := dst.etag, versionId := dst.versionId } }
      writeAtomic cfg
      writeSentinel digest cfg entry.partitionId
      pure .done
    | none =>
      fail cfg entry.partitionId "source_404+target_200 dst sha256 absent — operator review"
  | .error (.clientError code) =>
    if code = "404" then
      fail cfg entry.partitionId "both_head_404: source deleted + dst absent — data loss risk"
    else throw (.raised (.clientError code))
  | .error e => throw (.raised e)

/-- Step A, the copy; `none` is to go on. -/
def stepCopy (entry : PartitionEntry C) : Job C (Option Status) := do
  setStatus entry.partitionId .copying
  writeAtomic cfg
  match ← attempt (onNas (copyObject entry.oldKey entry.newKey)) with
  | .error e => do
    let status ← fail cfg entry.partitionId (excName e)
    pure (some status)
  | .ok copy =>
    match copy.status with
    | .sourceNotFound => do
      let status ← sourceNotFound digest cfg entry
      pure (some status)
    | .dstConflict => do
      let status ← fail cfg entry.partitionId
        "dst_conflict: dst sha256 mismatch — manual operator review required"
      pure (some status)
    | _ => do
      setEntry entry.partitionId fun e => { e with
        status := .copied
        newHead := { e.newHead with etag := copy.dstEtag, versionId := copy.dstVersionId } }
      writeAtomic cfg
      pure none

/-- Step B, the verification; `none` is to go on. -/
def stepVerify (entry : PartitionEntry C) : Job C (Option Status) := do
  setStatus entry.partitionId .verifying
  writeAtomic cfg
  match ← verify4head entry with
  | none => do
    let status ← fail cfg entry.partitionId "4-HEAD verify FAIL — delete aborted"
    pure (some status)
  | some (src, dst) =>
    if src.sha256.isNone && dst.sha256.isNone then do
      setStatus entry.partitionId .legacyNoSha256
      writeAtomic cfg
      pure (some .legacyNoSha256)
    else do
      setStatus entry.partitionId .verified
      writeAtomic cfg
      pure none

/-- `delete_object(old_key)` -/
def issueDelete (key : Key) : Job C Unit := do
  alive
  modify fun s => { s with deletes := (key, s.nas) :: s.deletes }
  Eff.within Site.world (fun w s => { s with world := w }) Abort.raised (deleteObject key)

/-- Step C, the delete. -/
def stepDelete (entry : PartitionEntry C) : Job C Status := do
  setEntry entry.partitionId fun e =>
    { e with status := .deleting, preDeleteVersionId := e.oldHead.versionId }
  writeAtomic cfg
  match ← attempt (if cfg.dryRun then pure () else issueDelete entry.oldKey) with
  | .error e => fail cfg entry.partitionId ("delete failed: " ++ excName e)
  | .ok _ => do
    writeSentinel digest cfg entry.partitionId
    setStatus entry.partitionId .done
    writeAtomic cfg
    pure .done

/-- Steps B and C. -/
def verifyThenDelete (entry : PartitionEntry C) : Job C Status := do
  match ← stepVerify cfg entry with
  | some status => pure status
  | none => stepDelete digest cfg entry

/-- `_process_partition` -/
def processPartition (entry : PartitionEntry C) : Job C Status := do
  if entry.status.skipsVerify then stepDelete digest cfg entry
  else if entry.status.skipsCopy then verifyThenDelete digest cfg entry
  else
    match ← stepCopy digest cfg entry with
    | some status => pure status
    | none => verifyThenDelete digest cfg entry

end

/-! ## a run -/

/-- `RekeyResult`, without the duration. -/
structure RekeyResult where
  partitionsTotal : Nat := 0
  copied : Nat := 0
  verified : Nat := 0
  deleted : Nat := 0
  skippedAlreadyMigrated : Nat := 0
  failed : Nat := 0
  legacyNoSha256 : Nat := 0
deriving DecidableEq, Repr

/-- `_check_versioning` -/
def checkVersioning : Job C Unit := do
  let s ← get
  let status ← onNas (request (pure s.versioning))
  if status ≠ "Enabled" then throw (.systemExit 2)

/-- `_check_disk_usage`: less than 1 GiB free. -/
def checkDiskUsage (launch : Launch) : Job C Unit := do
  if launch.diskFree < 1024 ^ 3 then throw (.systemExit 1)

/-- The abort of a batch after a failed partition. -/
def abortsBatch (threshold : ℚ) (failedInBatch totalDone : Nat) : Bool :=
  if threshold = 0 ∧ 0 < failedInBatch then true
  else decide (0 < totalDone ∧ threshold < (failedInBatch : ℚ) / totalDone)

section

variable (digest : Digest16) (cfg : RekeyConfig)

/-- The loop over the candidates: those with a sentinel are done, the others are registered. -/
def populate (sentinels : List Path) : List Key → Manifest C → Manifest C
  | [], m => m
  | oldKey :: rest, m =>
    let partitionId := buildPartitionId oldKey
    populate sentinels rest
      (if sentinelPath digest cfg partitionId ∈ sentinels then
        m.update partitionId fun e => { e with status := .done }
      else m.upsertPending partitionId oldKey (buildNewKey oldKey))

/-- The candidates with a sentinel, and the finished entries that are no candidates. -/
def countSkipped (sentinels : List Path) (candidates : List Key) (m : Manifest C) : Nat :=
  (candidates.filter fun k => sentinelPath digest cfg (buildPartitionId k) ∈ sentinels).length +
    (m.finished.filter fun e => !decide (e.partitionId ∈ candidates.map buildPartitionId)).length

/-- The per-batch loop. -/
def batch (launch : Launch) :
    List (PartitionEntry C) → Nat → Nat → RekeyResult → Job C RekeyResult
  | [], _, _, result => pure result
  | entry :: rest, processed, failedInBatch, result =>
    if launch.sigterm processed then pure result
    else if cfg.batchSize ≤ processed then pure result
    else if cfg.maxPartitions.any fun n => decide (n ≤ processed) then pure result
    else do
      match ← processPartition digest cfg entry with
      | .done =>
        batch launch rest (processed + 1) failedInBatch { result with
          deleted := result.deleted + if cfg.dryRun then 0 else 1
          copied := result.copied + 1
          verified := result.verified + 1 }
      | .legacyNoSha256 =>
        batch launch rest (processed + 1) failedInBatch
          { result with legacyNoSha256 := result.legacyNoSha256 + 1 }
      | .failed =>
        if abortsBatch cfg.threshold (failedInBatch + 1) (processed + 1) then
          pure { result with failed := result.failed + 1 }
        else
          batch launch rest (processed + 1) (failedInBatch + 1)
            { result with failed := result.failed + 1 }
      | _ => batch launch rest (processed + 1) failedInBatch result

/-- The guard against a listing without candidates. -/
def silentZero : Job C RekeyResult := do
  match (← get).manifests.lookup (manifestName cfg) with
  | some m =>
    if 0 < m.finished.length then pure { skippedAlreadyMigrated := m.finished.length }
    else throw (.systemExit 4)
  | none => throw (.systemExit 4)

/-- The run once there are candidates. -/
def migrate (launch : Launch) (candidates : List Key) : Job C RekeyResult := do
  load cfg
  modify fun s => { s with memory := populate digest cfg s.sentinels candidates s.memory }
  let s ← get
  writeAtomic cfg
  batch digest cfg launch s.memory.resumable 0 0 {
    partitionsTotal := candidates.length
    skippedAlreadyMigrated := countSkipped digest cfg s.sentinels candidates s.memory }

/-- `RekeyOrchestrator.run` -/
def run (launch : Launch) : Job C RekeyResult := do
  if !cfg.dryRun && !cfg.iUnderstandIrreversible then throw (.systemExit 3)
  checkVersioning
  checkDiskUsage launch
  let candidates ← discoverL1Objects cfg
  if !cfg.dryRun && decide (candidates.length = 0) then silentZero cfg
  else migrate digest cfg launch candidates

end

/-! ## histories of runs -/

/-- One run: its configuration and what happens around it. -/
structure Attempt where
  config : RekeyConfig
  launch : Launch
  replies : Stream' Reply
  crashes : Stream' Bool

/-- The site when an attempt starts. -/
def Attempt.start (a : Attempt) (s : Site C) : Site C :=
  { s with world := { s.world with replies := a.replies }, crashes := a.crashes }

/-- The site an attempt leaves, whether it returns, raises, exits or dies. -/
def Attempt.leaves (digest : Digest16) (a : Attempt) (s : Site C) : Site C :=
  (run digest a.config a.launch).after (a.start s)

/-- What an attempt returns. -/
def Attempt.returns (digest : Digest16) (a : Attempt) (s : Site C) : Except Abort RekeyResult :=
  (run digest a.config a.launch).result (a.start s)

/-- No run has been made yet: there is a bucket, and nothing in the audit directory. -/
def Site.Untouched (s : Site C) : Prop :=
  s.manifests = ∅ ∧ s.sentinels = [] ∧ s.deletes = [] ∧ s.memory = []

/-- Runs after runs on the bucket of `site`. -/
def rekeyMachine (digest : Digest16) (site : Site C) : Machine (Site C) Attempt where
  init s := s = site
  step s a := some (a.leaves digest s)

end MctraderData.Migration
