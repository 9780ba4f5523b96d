import MctraderData.Wal.Segment

/-!
# mctrader-data — the WAL writer

Model of `WalIngester` of `wal/ingester.py`. An ingester writes one segment at a time,
opened for appending under the name of the current window. When a window is over, or the
ingester is closed, `os.replace` renames the segment to its sealed name, whatever is
there already.

`time.time()` is read as whole seconds and `time.monotonic()` as milliseconds; both are
arguments of the operation that reads them. `fsync` has no effect on what a reader of the
file system sees, so of a flush only the counters remain.
-/

namespace MctraderData.Wal

open Lib
open Nas
open Compactor (Content)

/-- What the constructor of an ingester is given. -/
structure Config where
  fsyncBatch : Nat := 1
  segmentSeconds : Nat := 300
  fsyncWindowMs : Option Nat := none
  fsyncWindowMsgs : Option Nat := none
  bufferMaxMsgs : Option Nat := none
  segmentSeconds_pos : 0 < segmentSeconds := by decide

/-- The constructor's own defaults. -/
abbrev Config.defaults : Config := {}

/-- The exceptions of an ingester. -/
inductive WalError where
  /-- `RuntimeError("WalIngester is closed")` -/
  | closed
  /-- `WalBufferOverflowError` -/
  | bufferOverflow
  | assertion
  | zeroDivision
  | fileNotFound
deriving DecidableEq, Repr

/-- The fields of an ingester. The descriptor is the file it was opened on. -/
structure Ingester where
  fd : Option Path := none
  currentPath : Option Path := none
  segmentStartIdx : Nat := 0
  writeCount : Nat := 0
  writesSinceFsync : Nat := 0
  lastFsyncMonotonic : Nat := 0
  closed : Bool := false
deriving DecidableEq

variable {W R : Type} [Blob (Content W R)]

/-- An ingester and the disk it writes to. -/
structure Writer (W R : Type) [Blob (Content W R)] where
  ingester : Ingester
  world : World (Content W R)

/-- A method of an ingester. -/
abbrev Method (W R : Type) [Blob (Content W R)] := Eff (Writer W R) WalError

def modifyIngester (f : Ingester → Ingester) : Method W R Unit :=
  modify fun s => { s with ingester := f s.ingester }

def modifyFiles (f : AList (fun _ : Path => Content W R) → AList fun _ : Path => Content W R) :
    Method W R Unit :=
  modify fun s => { s with world := { s.world with files := f s.world.files } }

/-- `os.open` with `O_APPEND | O_CREAT`: a file that exists is continued. -/
def openAppend (path : Path) : Method W R Unit := do
  let s ← get
  if (s.world.files.lookup path).isSome then pure ()
  else modifyFiles fun files => files.insert path (.ndjson [])

/-- `os.write` of one encoded record. -/
def writeRecord (path : Path) (record : W) : Method W R Unit := do
  let s ← get
  match s.world.files.lookup path with
  | some (.ndjson records) =>
    modifyFiles fun files => files.insert path (.ndjson (records ++ [record]))
  | _ => throw .fileNotFound

/-- `os.replace(active, sealed)` -/
def replaceFile (src dst : Path) : Method W R Unit := do
  let s ← get
  match s.world.files.lookup src with
  | some c => modifyFiles fun files => (files.erase src).insert dst c
  | none => throw .fileNotFound

def assertSome {α : Type} : Option α → Method W R α
  | some a => pure a
  | none => throw .assertion

/-- `_should_fsync_now` -/
def shouldFsyncNow (cfg : Config) (ing : Ingester) (mono : Nat) : Except WalError Bool :=
  if cfg.fsyncWindowMs.isSome || cfg.fsyncWindowMsgs.isSome then
    .ok (cfg.fsyncWindowMsgs.any (fun n => decide (n ≤ ing.writesSinceFsync)) ||
      cfg.fsyncWindowMs.any fun ms => decide (ms ≤ mono - ing.lastFsyncMonotonic))
  else if cfg.fsyncBatch = 0 then .error .zeroDivision
  else .ok (decide (ing.writeCount % cfg.fsyncBatch = 0))

variable (cfg : Config) (feed : Feed)

/-- `_open_new_segment` -/
def openNewSegment (startIdx mono : Nat) : Method W R Unit := do
  let path := activeSegmentPath feed (startIdx * cfg.segmentSeconds)
  modifyIngester fun ing => { ing with segmentStartIdx := startIdx, currentPath := some path }
  openAppend path
  modifyIngester fun ing => { ing with
    fd := some path, writeCount := 0, writesSinceFsync := 0, lastFsyncMonotonic := mono }

/-- `_seal_current` -/
def sealCurrent : Method W R Unit := do
  let s ← get
  let _ ← assertSome s.ingester.fd
  modifyIngester fun ing => { ing with fd := none }
  let path ← assertSome s.ingester.currentPath
  replaceFile path (sealPath path)
  modifyIngester fun ing => { ing with currentPath := none }

/-- The wall clock has left the window of the current segment. -/
def windowOver (ing : Ingester) (now : Nat) : Bool :=
  decide (ing.segmentStartIdx < segmentIndex now cfg.segmentSeconds)

/-- `maybe_seal` -/
def maybeSeal (now mono : Nat) : Method W R Unit := do
  let s ← get
  if windowOver cfg s.ingester now then do
    sealCurrent
    openNewSegment cfg feed (segmentIndex now cfg.segmentSeconds) mono
  else pure ()

def resetWindow (mono : Nat) : Method W R Unit :=
  modifyIngester fun ing => { ing with writesSinceFsync := 0, lastFsyncMonotonic := mono }

/-- The end of `append`: the counters and the flush that may be due. -/
def countWrite (mono : Nat) : Method W R Unit := do
  modifyIngester fun ing => { ing with
    writeCount := ing.writeCount + 1, writesSinceFsync := ing.writesSinceFsync + 1 }
  let s ← get
  match shouldFsyncNow cfg s.ingester mono with
  | .ok true => resetWindow mono
  | .ok false => pure ()
  | .error e => throw e

/-- The buffer holds as many unflushed lines as it may. -/
def bufferFull (ing : Ingester) : Bool :=
  cfg.bufferMaxMsgs.any fun n => decide (n ≤ ing.writesSinceFsync)

/-- The part of `append` after the window check. -/
def writeLine (mono : Nat) (record : W) : Method W R Unit := do
  let s ← get
  if bufferFull cfg s.ingester then throw .bufferOverflow
  else do
    let path ← assertSome s.ingester.fd
    writeRecord path record
    countWrite cfg mono

/-- `append` -/
def append (now mono : Nat) (record : W) : Method W R Unit := do
  let s ← get
  if s.ingester.closed then throw .closed
  else do
    maybeSeal cfg feed now mono
    writeLine cfg mono record

/-- `flush` -/
def flush (mono : Nat) : Method W R Unit := do
  let s ← get
  if s.ingester.closed then pure ()
  else if s.ingester.fd.isSome && decide (0 < s.ingester.writesSinceFsync) then resetWindow mono
  else pure ()

/-- The rename of `close`, if the segment is still there. -/
def sealIfExists : Option Path → Method W R Unit
  | none => pure ()
  | some path => do
    let s ← get
    if (s.world.files.lookup path).isSome then do
      replaceFile path (sealPath path)
      modifyIngester fun ing => { ing with currentPath := none }
    else pure ()

/-- `close` -/
def close : Method W R Unit := do
  let s ← get
  if s.ingester.closed then pure ()
  else do
    modifyIngester fun ing => { ing with fd := none }
    sealIfExists s.ingester.currentPath
    modifyIngester fun ing => { ing with closed := true }

/-- The constructor. -/
def create (now mono : Nat) : Method W R Unit := do
  modifyIngester fun _ => { lastFsyncMonotonic := mono }
  openNewSegment cfg feed (segmentIndex now cfg.segmentSeconds) mono

end MctraderData.Wal
