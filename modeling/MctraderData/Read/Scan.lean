import Mathlib.Data.List.Infix
import Mathlib.Data.Prod.Lex
import Mathlib.Data.Rat.Defs
import MctraderData.Wal.Segment

/-!
# mctrader-data — scans over the market partitions

Model of the read side: `scan_ticks` and `scan_orderbook_events` of `orderbook_replay.py`
with the dedup of `dedup.py`, and `scan_orderbook_snapshots` of `storage.py`. A scan walks
the date directories of a window, reads every parquet file below them, keeps the rows of
the window, and sorts them.

`scan_ticks` and `scan_orderbook_events` differ in the directory they walk and in the
logical key of their dedup, so they are two instances of one definition. Of the dedup only
the emitted rows are modelled: its counters and quarantine records go nowhere.

Timestamps are microseconds since the epoch, and `Decimal` values are rationals.
-/

namespace MctraderData.Read

open Nas
open Wal
open Compactor

/-! ## rows -/

inductive Side where
  | bid
  | ask
deriving DecidableEq, Repr

inductive EventType where
  | snapshot
  | delta
deriving DecidableEq, Repr

/-- `TickRecord`, and a row of `tick.v1` -/
structure TickRow where
  tsUtc : Int
  receivedAt : Int
  exchange : String
  symbol : String
  price : ℚ
  quantity : ℚ
  side : String
  rawJson : Option String
deriving DecidableEq

/-- `OrderbookEventRecord`, and a row of `orderbook.v1` -/
structure EventRow where
  tsUtc : Int
  receivedAt : Int
  exchange : String
  symbol : String
  eventType : EventType
  side : Side
  level : Int
  price : ℚ
  quantity : ℚ
  rawJson : Option String
deriving DecidableEq

/-- `OrderbookSnapshotRecord`, and a row of `orderbook_snapshot.v1` -/
structure SnapshotRow where
  tsUtc : Int
  receivedAt : Int
  exchange : String
  symbol : String
  baselineSeq : Int
  side : Side
  level : Int
  price : ℚ
  quantity : ℚ
  payloadHash : String
  rawJson : Option String
deriving DecidableEq

instance : Timed TickRow := ⟨TickRow.tsUtc⟩
instance : Timed EventRow := ⟨EventRow.tsUtc⟩
instance : Timed SnapshotRow := ⟨SnapshotRow.tsUtc⟩

/-- What a scan looks at in a row. -/
structure RowKind (R K : Type) where
  tsUtc : R → Int
  receivedAt : R → Int
  rawJson : R → Option String
  logicalKey : R → K

/-- The tuple of `tick_logical_key` -/
structure TickKey where
  exchange : String
  symbol : String
  tsUtc : Int
  price : ℚ
  quantity : ℚ
  side : String
deriving DecidableEq

/-- The tuple of `orderbook_logical_key` -/
structure EventKey where
  exchange : String
  symbol : String
  tsUtc : Int
  eventType : EventType
  side : Side
  level : Int
  price : ℚ
  quantity : ℚ
deriving DecidableEq

def tickKind : RowKind TickRow TickKey where
  tsUtc := TickRow.tsUtc
  receivedAt := TickRow.receivedAt
  rawJson := TickRow.rawJson
  logicalKey r := ⟨r.exchange, r.symbol, r.tsUtc, r.price, r.quantity, r.side⟩

def eventKind : RowKind EventRow EventKey where
  tsUtc := EventRow.tsUtc
  receivedAt := EventRow.receivedAt
  rawJson := EventRow.rawJson
  logicalKey r :=
    ⟨r.exchange, r.symbol, r.tsUtc, r.eventType, r.side, r.level, r.price, r.quantity⟩

/-! ## directories -/

def microsPerDay : Int := 86400000000

def dayOf (ts : Int) : Int := ts / microsPerDay

theorem dayOf_mono {ts ts' : Int} (h : ts ≤ ts') : dayOf ts ≤ dayOf ts' :=
  Int.ediv_le_ediv (by decide) h

/-- The characters of `[A-Za-z0-9_.=\-]`. -/
def allowedChar (c : Char) : Bool :=
  ('A' ≤ c ∧ c ≤ 'Z') || ('a' ≤ c ∧ c ≤ 'z') || ('0' ≤ c ∧ c ≤ '9') || c ∈ ['_', '.', '=', '-']

/-- `re.match(r"^[A-Za-z0-9_.=\-]+$", value)`; `$` also matches before a last newline. -/
def matchesAllowed (value : List Char) : Bool :=
  let body := if value.getLast? = some '\n' then value.dropLast else value
  !body.isEmpty && body.all allowedChar

/-- `_safe_path_component`; `false` is the `ValueError`. -/
def safePathComponent (value : String) : Bool :=
  !decide (['.', '.'] <:+: value.toList) && value.toList.head? != some '/' &&
    value.toList.head? != some '\\' && matchesAllowed value.toList

/-- The directory of one date of one stream. `_assert_within_root` never fires: no
component has a slash. -/
def partitionDir (tree schemaVer exchange symbol dateStr : String) : Except Exn Path :=
  if safePathComponent exchange && safePathComponent symbol && safePathComponent dateStr then
    .ok ["market", tree, "schema_version=" ++ schemaVer, "exchange=" ++ exchange,
      "symbol=" ++ symbol, "date=" ++ dateStr]
  else .error .valueError

/-- `_tick_partition_dir` -/
def tickPartitionDir (exchange symbol dateStr : String) : Except Exn Path :=
  partitionDir "ticks" "tick.v1" exchange symbol dateStr

/-- `_orderbook_partition_dir` -/
def orderbookPartitionDir (exchange symbol dateStr : String) : Except Exn Path :=
  partitionDir "orderbook" "orderbook.v1" exchange symbol dateStr

/-! ## reading -/

/-- The files below the root. -/
abbrev Files (W R : Type) := AList fun _ : Path => Content W R

variable {W R K : Type}

/-- `sorted(dir.rglob("*.parquet"))` -/
def parquetFiles (files : Files W R) (dir : Path) : List Path :=
  (files.keys.filter fun path =>
    dir.isPrefixOf path.dropLast && hasSuffix ".parquet" (path.getLastD "")).insertionSort
      (pathLe · ·)

variable {files : Files W R} {path : Path}

theorem mem_parquetFiles {dir : Path} :
    path ∈ parquetFiles files dir ↔
      path ∈ files ∧ (dir.isPrefixOf path.dropLast && hasSuffix ".parquet" (path.getLastD "")) := by
  unfold parquetFiles
  rw [List.mem_insertionSort, List.mem_filter, AList.mem_keys]

theorem mem_of_mem_parquetFiles {dir : Path} (h : path ∈ parquetFiles files dir) : path ∈ files :=
  (mem_parquetFiles.mp h).1

/-- A row with the place it was read from. -/
structure ReadRow (R : Type) where
  fileOffset : Nat
  rowIdx : Nat
  row : R
  path : Path
deriving DecidableEq

/-- `pq.ParquetFile(fp).read().to_pylist()` -/
def tableRows (files : Files W R) (path : Path) : Except Exn (List R) :=
  match files.lookup path with
  | some (.parquet table) => .ok table.rows
  | _ => .error .arrowInvalid

theorem tableRows_eq_ok_iff {rows : List R} :
    tableRows files path = .ok rows ↔
      ∃ table, files.lookup path = some (.parquet table) ∧ table.rows = rows := by
  unfold tableRows
  constructor
  · intro h
    split at h
    · rename_i table htable
      exact ⟨table, htable, Except.ok.inj h⟩
    · cases h
  · rintro ⟨table, htable, rfl⟩
    rw [htable]

theorem tableRows_of_lookup {table : Table R} (h : files.lookup path = some (.parquet table)) :
    tableRows files path = .ok table.rows :=
  tableRows_eq_ok_iff.mpr ⟨table, h, rfl⟩

/-- `_read_parquet_rows` -/
def readParquetRows (files : Files W R) (dir : Path) : Except Exn (List (ReadRow R)) := do
  let parts ← (parquetFiles files dir).zipIdx.mapM fun (path, fileOffset) => do
    let rows ← tableRows files path
    pure (rows.zipIdx.map fun (row, rowIdx) => ⟨fileOffset, rowIdx, row, path⟩)
  pure parts.flatten

/-- The node of a file: the first directory `node=<id>` of its path. -/
def nodeOf (path : Path) : String :=
  (path.dropLast.findSome? fun component =>
    if hasPrefix "node=" component && decide (5 < component.length) then
      some (String.ofList (component.toList.drop 5))
    else none).getD "zzz_DEFAULT"

variable (env : Env R) (kind : RowKind R K)

/-- `_date_range`: both ends included. -/
def dateRange (start stop : Int) : List String :=
  (List.range (dayOf stop + 1 - dayOf start).toNat).map fun i : Nat =>
    env.isoformat (dayOf start + (i : Int))

/-- A row is in the window and, with a simulated clock, already received. -/
def inWindow (start stop : Int) (simulatedClock : Option Int) (row : R) : Bool :=
  decide (start ≤ kind.tsUtc row) && decide (kind.tsUtc row < stop) &&
    simulatedClock.all fun clock => decide (kind.receivedAt row ≤ clock)

/-- The sort key `(ts_utc, received_at, file_offset, row_idx)` -/
def sortKey (r : ReadRow R) : Int ×ₗ Int ×ₗ Nat ×ₗ Nat :=
  toLex (kind.tsUtc r.row, toLex (kind.receivedAt r.row, toLex (r.fileOffset, r.rowIdx)))

/-- The rows of a window, sorted. -/
def scanRows (files : Files W R) (dirOf : String → Except Exn Path) (start stop : Int)
    (simulatedClock : Option Int) : Except Exn (List (ReadRow R)) := do
  let parts ← (dateRange env start stop).mapM fun dateStr => do
    let dir ← dirOf dateStr
    let rows ← readParquetRows files dir
    pure (rows.filter fun r => inWindow kind start stop simulatedClock r.row)
  pure (parts.flatten.insertionSort fun a b => sortKey kind a ≤ sortKey kind b)

/-! ## dedup -/

/-- Two rows with one logical key and different `raw_json`. -/
def mismatch (a b : R) : Bool :=
  match kind.rawJson a, kind.rawJson b with
  | some x, some y => x != y
  | _, _ => false

/-- One row of the loop of `deduplicate_ticks` and `deduplicate_orderbook_events`: the
first row of a key stays, unless one with another `raw_json` comes from a node that is
first in the alphabet. -/
def dedupStep [DecidableEq K] (byKey : List (K × ReadRow R)) (r : ReadRow R) :
    List (K × ReadRow R) :=
  let key := kind.logicalKey r.row
  match byKey.find? fun p => decide (p.1 = key) with
  | none => byKey ++ [(key, r)]
  | some (_, existing) =>
    if mismatch kind existing.row r.row &&
        decide ((nodeOf r.path).toList < (nodeOf existing.path).toList) then
      byKey.map fun p => if p.1 = key then (key, r) else p
    else byKey

/-- The emitted rows, by `ts_utc`. -/
def deduplicate [DecidableEq K] (rows : List (ReadRow R)) : List (ReadRow R) :=
  ((rows.foldl (dedupStep kind) []).map Prod.snd).insertionSort fun a b =>
    kind.tsUtc a.row ≤ kind.tsUtc b.row

/-- Rows of more than one node are deduplicated. -/
def emitRows [DecidableEq K] (rows : List (ReadRow R)) : List R :=
  if 2 ≤ (rows.map fun r => nodeOf r.path).dedup.length then
    (deduplicate kind rows).map ReadRow.row
  else rows.map ReadRow.row

/-- The scan of one stream. -/
def scanStream [DecidableEq K] (files : Files W R) (dirOf : String → Except Exn Path)
    (start stop : Int) (simulatedClock : Option Int) : Except Exn (List R) := do
  let rows ← scanRows env kind files dirOf start stop simulatedClock
  pure (emitRows kind rows)

/-- `scan_ticks` -/
def scanTicks (env : Env TickRow) (files : Files W TickRow) (exchange symbol : String)
    (start stop : Int) (simulatedClock : Option Int) : Except Exn (List TickRow) :=
  scanStream env tickKind files (tickPartitionDir exchange symbol) start stop simulatedClock

/-- `scan_orderbook_events` -/
def scanOrderbookEvents (env : Env EventRow) (files : Files W EventRow) (exchange symbol : String)
    (start stop : Int) (simulatedClock : Option Int) : Except Exn (List EventRow) :=
  scanStream env eventKind files (orderbookPartitionDir exchange symbol) start stop simulatedClock

/-! ## engines -/

/-- What a query engine hands out for `ORDER BY key`; it breaks ties as it likes. -/
structure OrderBy {α : Type} (key : α → Int) where
  orderBy : List α → List α
  perm : ∀ rows, (orderBy rows).Perm rows
  sorted : ∀ rows, (orderBy rows).Pairwise fun a b => key a ≤ key b

/-! ## scan_orderbook_snapshots -/

/-- The directory of one date; names are not checked here. -/
def snapshotDir (exchange symbol dateStr : String) : Path :=
  ["market", "orderbook_snapshot", "schema_version=orderbook_snapshot.v1", "exchange=" ++ exchange,
    "symbol=" ++ symbol, "date=" ++ dateStr]

/-- The rows of the files of a directory; a file that cannot be read is skipped. -/
def readableRows (files : Files W R) (dir : Path) : List R :=
  (parquetFiles files dir).flatMap fun path =>
    match tableRows files path with
    | .ok rows => rows
    | .error _ => []

/-- What a scan of snapshots looks at; it has no dedup. -/
def snapshotKind : RowKind SnapshotRow Unit where
  tsUtc := SnapshotRow.tsUtc
  receivedAt := SnapshotRow.receivedAt
  rawJson := SnapshotRow.rawJson
  logicalKey _ := ()

/-- The sort key `(ts_utc, baseline_seq)` -/
def snapshotKey (r : SnapshotRow) : Int ×ₗ Int := toLex (r.tsUtc, r.baselineSeq)

/-- `scan_orderbook_snapshots` -/
def scanOrderbookSnapshots (env : Env SnapshotRow) (files : Files W SnapshotRow)
    (exchange symbol : String) (start stop : Int) (simulatedClock : Option Int) :
    List SnapshotRow :=
  ((dateRange env start stop).flatMap fun dateStr =>
    (readableRows files (snapshotDir exchange symbol dateStr)).filter
      (inWindow snapshotKind start stop simulatedClock)).insertionSort fun a b =>
        snapshotKey a ≤ snapshotKey b

end MctraderData.Read
