import Mathlib.Algebra.GroupWithZero.Nat
import Mathlib.Data.List.AList
import Mathlib.Data.List.Sort
import MctraderData.Base
import MctraderData.Lib.Transition

/-!
# mctrader-data — the retry queue

Model of `nas_storage/retry_queue.py`: the sqlite table `retry_queue` and the
payload directory as one durable `Store`, and `RetryQueue.enqueue` and
`RetryQueue.drain` as a machine whose steps are the single durable effects of
the code. `enqueue` holds the lock from its first query to its INSERT; `drain`
holds it only around each statement, so an `enqueue` of another thread may run
between any two steps of a `drain`, and the machine lets it.

A crash forgets both program counters and keeps the store. `time.monotonic()`
stamps and the uploader's replies are inputs of the steps. `uuid.uuid4()` hands
out an id that was never handed out before.

The uploader reply, not the uploader, is modelled here: `drain` reacts to any
status and to any exception. Left out: the gauges, the log lines and the
throttling sleep, none of which the queue reads back.
-/

namespace MctraderData.RetryQueue

open Lib

variable {C : Type} [Blob C]

/-! ## the durable store -/

/-- The `state` column: the two values the code writes. -/
inductive RowState where
  | pending
  | quarantined
deriving DecidableEq, Repr

/-- A row of the table `retry_queue`. -/
structure Row (C : Type) [Blob C] where
  id : String
  key : Key
  sha256 : Blob.Digest C
  payloadFile : String
  payloadBytes : Nat
  state : RowState
  enqueueTs : Nat

/-- The arguments of an `enqueue` call: what the queue is asked to keep. -/
structure Item (C : Type) [Blob C] where
  key : Key
  data : C
  sha256 : Blob.Digest C

/-- The constructor arguments of `RetryQueue`. -/
structure Config where
  maxSegments : Nat
  maxBytes : Nat
  hardFloor : Nat

/-- The sqlite table, in rowid order, and the payload directory. -/
structure Store (C : Type) [Blob C] where
  rows : List (Row C)
  payloads : AList fun _ : String => C

/-- `f"{item_id}.bin"` -/
def payloadFilename (itemId : String) : String := itemId ++ ".bin"

/-- `SELECT … WHERE state=? ORDER BY enqueue_ts` -/
def selectState (rows : List (Row C)) (st : RowState) : List (Row C) :=
  (rows.filter (·.state = st)).insertionSort (·.enqueueTs ≤ ·.enqueueTs)

/-- `SELECT COUNT(*) … WHERE state IN ('pending', 'quarantined')` -/
def totalActive (rows : List (Row C)) : Nat :=
  rows.countP fun r => r.state = .pending ∨ r.state = .quarantined

/-- The threshold test of `enqueue`, on the pending rows only. -/
def thresholdBreached (cfg : Config) (rows : List (Row C)) (payloadBytes : Nat) : Bool :=
  let pending := rows.filter (·.state = .pending)
  cfg.maxSegments ≤ pending.length ||
    cfg.maxBytes < (pending.map (·.payloadBytes)).sum + payloadBytes

/-- `UPDATE retry_queue SET state='quarantined' WHERE id=?` -/
def setQuarantined (rows : List (Row C)) (itemId : String) : List (Row C) :=
  rows.map fun r => if r.id = itemId then { r with state := .quarantined } else r

/-- `_quarantine_oldest_locked` -/
def quarantineOldestLocked (rows : List (Row C)) : List (Row C) :=
  match selectState rows .pending with
  | [] => rows
  | r :: _ => setQuarantined rows r.id

/-- The row `enqueue` inserts. -/
def newRow (item : Item C) (itemId : String) (ts : Nat) : Row C where
  id := itemId
  key := item.key
  sha256 := item.sha256
  payloadFile := payloadFilename itemId
  payloadBytes := Blob.size item.data
  state := .pending
  enqueueTs := ts

/-- `DELETE FROM retry_queue WHERE id=?` -/
def deleteRow (rows : List (Row C)) (itemId : String) : List (Row C) :=
  rows.filter (·.id ≠ itemId)

/-! ## the running calls -/

/-- `EnqueueResult.status` -/
inductive EnqueueStatus where
  | ok
  | hardFloorBlocked
deriving DecidableEq, Repr

/-- Where an `enqueue` call stands. -/
inductive EnqPc (C : Type) [Blob C] where
  /-- No `enqueue` holds the lock. -/
  | idle
  /-- Stage 1 passed, threshold breached: the UPDATE is next. -/
  | demote (item : Item C)
  /-- The payload file is written next. -/
  | save (item : Item C)
  /-- The payload file is on disk: the INSERT is next. -/
  | insert (item : Item C) (itemId : String)
  /-- The INSERT raised: the handler unlinks the payload next. -/
  | cleanup (itemId : String)
  /-- The row is committed: `EnqueueResult('ok')` is returned next. -/
  | ret (item : Item C) (itemId : String)

/-- `PutResult.status` of the uploader. -/
inductive PutStatus where
  | uploaded
  | skippedIdempotent
  | queued
  | hardFloorBlocked
  | skippedEtagOverwrite
deriving DecidableEq, Repr

/-- `DrainStats` -/
structure DrainStats where
  drained : Nat := 0
  failed : Nat := 0
  skipped : Nat := 0
deriving DecidableEq, Repr

/-- What the loop body of `drain` does next. -/
inductive DrainStage (C : Type) [Blob C] where
  /-- Take the next row of the snapshot. -/
  | next
  /-- `uploader.put` runs on the data read from the row's payload file. -/
  | put (row : Row C) (data : C)
  /-- The put succeeded: DELETE is next. -/
  | delete (row : Row C)
  /-- The row is gone: the payload is unlinked next. -/
  | unlink (row : Row C)

/-- Where a `drain` call stands: `cycle` is the state its snapshot `todo` was
selected by (cycle 1 pending, cycle 2 quarantined). -/
inductive DrainPc (C : Type) [Blob C] where
  | idle
  | loop (cycle : RowState) (todo : List (Row C)) (stage : DrainStage C) (stats : DrainStats)

/-- Store, running calls, and the history the guarantees speak about. -/
structure St (C : Type) [Blob C] where
  store : Store C
  enq : EnqPc C
  drn : DrainPc C
  /-- Ids `uuid4` handed out. -/
  issued : List String
  /-- Ids whose row was committed at some time. -/
  inserted : List String
  /-- `enqueue` calls that returned ok, with the id they returned. -/
  acked : List (String × Item C)
  /-- Uploader puts of `drain` that returned: row id, what was put, status. -/
  puts : List (String × Item C × PutStatus)

/-- An empty queue, no call running. -/
def initial : St C where
  store := ⟨[], ∅⟩
  enq := .idle
  drn := .idle
  issued := []
  inserted := []
  acked := []
  puts := []

/-! ## steps -/

/-- One durable effect of a running call, the start or the end of a call, an
input from the environment, or a crash. -/
inductive Action (C : Type) [Blob C] where
  /-- `enqueue` is called, takes the lock and runs its queries. -/
  | enqueue (item : Item C)
  /-- `_quarantine_oldest_locked` commits. -/
  | quarantineOldest
  /-- `uuid4` returned `itemId` and the payload file is written. -/
  | savePayload (itemId : String)
  /-- Writing the payload file raised; `partialData` is what is left of it. -/
  | savePayloadRaises (itemId : String) (partialData : Option C)
  /-- The INSERT commits. -/
  | insertRow (ts : Nat)
  /-- The INSERT raises. -/
  | insertRaises
  /-- The handler unlinks the payload (or its `suppress` swallows the failure). -/
  | cleanupPayload (unlinked : Bool)
  /-- `enqueue` returns ok. -/
  | enqueueReturns
  /-- `drain` is called and takes its first snapshot. -/
  | drain
  /-- `drain` takes the next row, or ends its cycle. -/
  | drainNext
  /-- Reading the payload file raised: `drain` raises. -/
  | readRaises
  /-- `uploader.put` returned. -/
  | putReturns (status : PutStatus)
  /-- `uploader.put` raised. -/
  | putRaises
  /-- The DELETE commits. -/
  | deleteCommits
  /-- The DELETE raises; the handler of the loop body keeps the row. -/
  | deleteRaises
  /-- The payload is unlinked. -/
  | unlinkPayload
  /-- The unlink raises; the handler of the loop body counts a failure. -/
  | unlinkRaises
  /-- The process dies. -/
  | crash

/-- What `enqueue` answers before its first write: `none` where it goes on. -/
def enqueueEntry (cfg : Config) (rows : List (Row C)) (item : Item C) :
    EnqueueStatus × EnqPc C :=
  if cfg.hardFloor ≤ totalActive rows then (.hardFloorBlocked, .idle)
  else if thresholdBreached cfg rows (Blob.size item.data) then (.ok, .demote item)
  else (.ok, .save item)

/-- The next stage after `drain` looked at row `r`: skip it when its payload
file is missing, else read the file and put it. -/
def drainRow (store : Store C) (cycle : RowState) (r : Row C) (rest : List (Row C))
    (stats : DrainStats) : DrainPc C :=
  match store.payloads.lookup r.payloadFile with
  | none => .loop cycle rest .next { stats with skipped := stats.skipped + 1 }
  | some data => .loop cycle rest (.put r data) stats

/-- The item a row and the data of its payload file stand for. -/
def Row.item (r : Row C) (data : C) : Item C := ⟨r.key, data, r.sha256⟩

/-- The payload directory after a write of `itemId`'s payload raised. -/
def leftBehind (payloads : AList fun _ : String => C) (itemId : String) :
    Option C → AList fun _ : String => C
  | none => payloads
  | some data => payloads.insert (payloadFilename itemId) data

/-- One step of `enqueue`. -/
def stepEnqueue (cfg : Config) (s : St C) : Action C → Option (St C)
  | .enqueue item =>
    match s.enq with
    | .idle => some { s with enq := (enqueueEntry cfg s.store.rows item).2 }
    | _ => none
  | .quarantineOldest =>
    match s.enq with
    | .demote item => some { s with
        store := { s.store with rows := quarantineOldestLocked s.store.rows }
        enq := .save item }
    | _ => none
  | .savePayload itemId =>
    match s.enq with
    | .save item =>
      if itemId ∈ s.issued then none
      else some { s with
        store := { s.store with
          payloads := s.store.payloads.insert (payloadFilename itemId) item.data }
        enq := .insert item itemId
        issued := itemId :: s.issued }
    | _ => none
  | .savePayloadRaises itemId partialData =>
    match s.enq with
    | .save _ =>
      if itemId ∈ s.issued then none
      else some { s with
        store := { s.store with
          payloads := leftBehind s.store.payloads itemId partialData }
        enq := .idle
        issued := itemId :: s.issued }
    | _ => none
  | .insertRow ts =>
    match s.enq with
    | .insert item itemId => some { s with
        store := { s.store with rows := s.store.rows ++ [newRow item itemId ts] }
        enq := .ret item itemId
        inserted := itemId :: s.inserted }
    | _ => none
  | .insertRaises =>
    match s.enq with
    | .insert _ itemId => some { s with enq := .cleanup itemId }
    | _ => none
  | .cleanupPayload unlinked =>
    match s.enq with
    | .cleanup itemId => some { s with
        store := { s.store with payloads :=
          if unlinked then s.store.payloads.erase (payloadFilename itemId)
          else s.store.payloads }
        enq := .idle }
    | _ => none
  | .enqueueReturns =>
    match s.enq with
    | .ret item itemId => some { s with
        enq := .idle
        acked := (itemId, item) :: s.acked }
    | _ => none
  | _ => none

/-- One step of `drain`. -/
def stepDrain (s : St C) : Action C → Option (St C)
  | .drain =>
    match s.drn with
    | .idle => some { s with
        drn := .loop .pending (selectState s.store.rows .pending) .next {} }
    | _ => none
  | .drainNext =>
    match s.drn with
    | .loop cycle (r :: rest) .next stats =>
      some { s with drn := drainRow s.store cycle r rest stats }
    | .loop .pending [] .next stats => some { s with
        drn := .loop .quarantined (selectState s.store.rows .quarantined) .next stats }
    | .loop .quarantined [] .next _ => some { s with drn := .idle }
    | _ => none
  | .readRaises =>
    match s.drn with
    | .loop _ (_ :: _) .next _ => some { s with drn := .idle }
    | _ => none
  | .putReturns status =>
    match s.drn with
    | .loop cycle todo (.put r data) stats => some { s with
        drn := if status = .queued
          then .loop cycle todo .next { stats with failed := stats.failed + 1 }
          else .loop cycle todo (.delete r) stats
        puts := (r.id, r.item data, status) :: s.puts }
    | _ => none
  | .putRaises =>
    match s.drn with
    | .loop cycle todo (.put _ _) stats => some { s with
        drn := .loop cycle todo .next { stats with failed := stats.failed + 1 } }
    | _ => none
  | .deleteCommits =>
    match s.drn with
    | .loop cycle todo (.delete r) stats => some { s with
        store := { s.store with rows := deleteRow s.store.rows r.id }
        drn := .loop cycle todo (.unlink r) stats }
    | _ => none
  | .deleteRaises =>
    match s.drn with
    | .loop cycle todo (.delete _) stats => some { s with
        drn := .loop cycle todo .next { stats with failed := stats.failed + 1 } }
    | _ => none
  | .unlinkPayload =>
    match s.drn with
    | .loop cycle todo (.unlink r) stats => some { s with
        store := { s.store with payloads := s.store.payloads.erase r.payloadFile }
        drn := .loop cycle todo .next { stats with drained := stats.drained + 1 } }
    | _ => none
  | .unlinkRaises =>
    match s.drn with
    | .loop cycle todo (.unlink _) stats => some { s with
        drn := .loop cycle todo .next { stats with failed := stats.failed + 1 } }
    | _ => none
  | _ => none

/-- One step of the queue's process. -/
def step (cfg : Config) (s : St C) (a : Action C) : Option (St C) :=
  match a with
  | .crash => some { s with enq := .idle, drn := .idle }
  | _ => (stepEnqueue cfg s a).orElse fun _ => stepDrain s a

/-- The queue as a machine: it starts empty. -/
def machine (C : Type) [Blob C] (cfg : Config) : Machine (St C) (Action C) where
  init s := s = initial
  step := step cfg

end MctraderData.RetryQueue
