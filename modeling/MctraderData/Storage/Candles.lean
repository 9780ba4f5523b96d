import MctraderData.Cold.Resample
import MctraderData.Lib.Civil
import MctraderData.Read.ActiveActive

/-!
# mctrader-data — writing and scanning candles

Model of `write_candles` and `scan_candles` of `storage.py`, with `derive_partition_path` of
`path.py` and `deduplicate_candles` of `dedup.py`.

Each call writes one file, named by its snapshot or by its run and sequence number; candles
written twice under different names are in two files. A scan reads all files of a stream and
keeps one row for each timestamp, but only if rows of two nodes are in its window.

Times are microseconds since the epoch, and dates begin there. SHA-256 is a parameter. Of the
columns that a file has beside those of a candle only `data_hash` is kept.

## Results

* `scanCandles_strict_iff` — after any calls, when the timestamps of a scan are strictly
  increasing.
* `writeCandles_holds_iff` — when the file of a call holds its batch.
-/

namespace MctraderData.Storage

open Nas (Exn)
open Cold (Timeframe)
open Compactor
open Read
open Lib

/-! ## write_candles -/

/-- A candle, and its row in a file, which also has a `data_hash`. -/
structure Candle where
  tsUtc : Int
  exchange : String
  symbol : String
  timeframe : Timeframe
  openPrice : ℚ
  high : ℚ
  low : ℚ
  close : ℚ
  volume : ℚ
  value : Option ℚ
  dataHash : Option String := none
deriving DecidableEq

inductive Mode where
  | historical
  | paper
deriving DecidableEq, Repr

/-- `timeframe.value` -/
def timeframeText : Timeframe → String
  | .m1 => "1m"
  | .m5 => "5m"
  | .m15 => "15m"
  | .h1 => "1h"
  | .h4 => "4h"
  | .d1 => "1d"

/-- `ts_utc.isoformat()` -/
def isoformat (tsUtc : Int) : String :=
  let seconds := tsUtc.toNat / 1000000
  let micros := tsUtc.toNat % 1000000
  String.ofList (dateText ['-'] (seconds / 86400) ++ 'T' :: timeText [':'] (seconds % 86400) ++
    (if micros = 0 then [] else '.' :: padded 6 micros)) ++ "+00:00"

/-- `str` of a `Decimal` with 18 places: a small number is written with an exponent. -/
def decimalStr (x : ℚ) : String :=
  let coefficient := (x * 10 ^ 18).floor
  let digits := Nat.toDigits 10 coefficient.natAbs
  let text :=
    if 12 < digits.length then
      let wide := padded 19 coefficient.natAbs
      wide.take (wide.length - 18) ++ '.' :: wide.drop (wide.length - 18)
    else
      let fraction := digits.drop 1
      digits.take 1 ++ (if fraction.isEmpty then [] else '.' :: fraction) ++
        'E' :: '-' :: Nat.toDigits 10 (19 - digits.length)
  String.ofList (if coefficient < 0 then '-' :: text else text)

/-- `_compute_data_hash`; `value` is not in it. -/
def computeDataHash (sha256 : String → String) (c : Candle) : String :=
  sha256 ("|".intercalate [isoformat c.tsUtc, decimalStr c.openPrice, decimalStr c.high,
    decimalStr c.low, decimalStr c.close, decimalStr c.volume])

/-- `_candles_to_arrow` -/
def candlesToArrow (sha256 : String → String) (candles : List Candle) : List Candle :=
  candles.map fun c => { c with dataHash := some (computeDataHash sha256 c) }

/-- `schema_version=ohlcv.v1` -/
def schemaRoot : Path := ["market", "ohlcv", "schema_version=ohlcv.v1"]

def modeDir : Mode → String
  | .historical => "mode=historical"
  | .paper => "mode=paper"

/-- The directories of one exchange, symbol and timeframe below a base. -/
def streamTail (exchange symbol : String) (timeframe : Timeframe) : Path :=
  ["exchange=" ++ exchange, "symbol=" ++ symbol, "timeframe=" ++ timeframeText timeframe]

/-- `derive_partition_path` -/
def derivePartitionPath (head : Candle) (mode : Option Mode) (nodeId : Option String) : Path :=
  let (year, dayOfYear) := yearDay (head.tsUtc.toNat / 86400000000)
  let (month, day) := monthDay year dayOfYear
  schemaRoot ++ (mode.map modeDir).toList ++
    streamTail head.exchange head.symbol head.timeframe ++
    ["year=" ++ String.ofList (padded 4 year), "month=" ++ String.ofList (padded 2 month),
      "date=" ++ String.ofList (padded 2 day)] ++
    (nodeId.map ("node=" ++ ·)).toList

/-- The arguments of `write_candles`. -/
structure WriteCall where
  candles : List Candle
  snapshotId : String
  mode : Option Mode := none
  nodeId : Option String := none
  collectorRunId : Option String := none
  batchSeq : Option Int := none

/-- The name of the file that a call writes. -/
def WriteCall.fileName (call : WriteCall) : String :=
  match call.collectorRunId, call.batchSeq with
  | some runId, some seq => runId ++ "-" ++ toString seq ++ ".parquet"
  | _, _ => "part-" ++ call.snapshotId ++ ".parquet"

abbrev CandleFiles := Files Unit Candle

/-- The set of `data_hash` of the file is that of the new rows; a file that cannot be read is
never a duplicate. -/
def sameHashes (files : CandleFiles) (target : Path) (table : List Candle) : Bool :=
  match tableRows files target with
  | .ok rows =>
    (rows.all fun row => (table.map Candle.dataHash).contains row.dataHash) &&
      table.all fun row => (rows.map Candle.dataHash).contains row.dataHash
  | .error _ => false

/-- `write_candles`: the partition, and the files after the call. -/
def writeCandles (sha256 : String → String) (files : CandleFiles) (call : WriteCall) :
    Except Exn (Path × CandleFiles) :=
  match call.candles with
  | [] => .error .valueError
  | head :: _ =>
    let partition := derivePartitionPath head call.mode call.nodeId
    let target := partition ++ [call.fileName]
    let table := candlesToArrow sha256 call.candles
    if sameHashes files target table then .ok (partition, files)
    else .ok (partition, files.insert target (.parquet ⟨"ohlcv.v1", [table], true⟩))

/-- The files after one more call. -/
def afterCall (sha256 : String → String) (files : CandleFiles) (call : WriteCall) : CandleFiles :=
  match writeCandles sha256 files call with
  | .ok (_, files') => files'
  | .error _ => files

/-- The files after some calls. -/
def afterCalls (sha256 : String → String) (calls : List WriteCall) : CandleFiles :=
  calls.foldl (afterCall sha256) ∅

/-! ## scan_candles -/

/-- The arguments of `scan_candles`. -/
structure CandleQuery where
  exchange : String
  symbol : String
  timeframe : Timeframe
  start : Int
  stop : Int
  modes : List Mode := [.historical]

/-- The base directories of a mode; legacy partitions have no mode and are historical. -/
def modeBases : Mode → List Path
  | .historical => [schemaRoot, schemaRoot ++ [modeDir .historical]]
  | .paper => [schemaRoot ++ [modeDir .paper]]

/-- `base.exists()` -/
def baseExists (files : CandleFiles) (base : Path) : Bool :=
  files.keys.any fun path => base.isPrefixOf path.dropLast

/-- `_resolve_scan_paths`: the directories of the globs, each once. -/
def resolveScanPaths (files : CandleFiles) (q : CandleQuery) : List Path :=
  (((q.modes.flatMap modeBases).filter (baseExists files)).map fun base =>
    base ++ streamTail q.exchange q.symbol q.timeframe).dedup

/-- `read_parquet('<dir>/**/*.parquet', filename=true)`; the engine fails when nothing
matches. -/
def readGlob (files : CandleFiles) (dir : Path) : Except Exn (List (Candle × Path)) :=
  if (parquetFiles files dir).isEmpty then .error .osError
  else do
    let parts ← (parquetFiles files dir).mapM fun path => do
      let rows ← tableRows files path
      pure (rows.map fun row => (row, path))
    pure parts.flatten

/-- The `WHERE` of the scan. -/
def CandleQuery.inWindow (q : CandleQuery) (x : Candle × Path) : Bool :=
  decide (q.start ≤ x.1.tsUtc) && decide (x.1.tsUtc < q.stop)

/-- The tuple of `candle_logical_key` -/
structure CandleKey where
  exchange : String
  symbol : String
  timeframe : Timeframe
  tsUtc : Int
deriving DecidableEq

def candleLogicalKey (x : Candle × Path) : CandleKey :=
  ⟨x.1.exchange, x.1.symbol, x.1.timeframe, x.1.tsUtc⟩

/-- `received_at`, for which a scan puts `ts_utc`. -/
def receivedAt (x : Candle × Path) : Int := x.1.tsUtc

/-- A row takes the place of another of its key: received later or, in a tie, from a node that
is first in the alphabet. -/
def replaces (existing row : Candle × Path) : Bool :=
  decide (receivedAt existing < receivedAt row) ||
    (decide (receivedAt existing = receivedAt row) &&
      decide ((nodeOf row.2).toList < (nodeOf existing.2).toList))

/-- `deduplicate_candles` with `multi_node=True` -/
def deduplicateCandles (rows : List (Candle × Path)) : List (Candle × Path) :=
  ((rows.foldl (keepStep candleLogicalKey replaces) []).map Prod.snd).insertionSort fun a b =>
    a.1.tsUtc ≤ b.1.tsUtc

/-- The `CandleModel` of a row, without its digest. -/
def candleModel (x : Candle × Path) : Candle := { x.1 with dataHash := none }

/-- Rows of two nodes are deduplicated, others are only sorted. -/
def emitCandles (rows : List (Candle × Path)) : List Candle :=
  if 2 ≤ (rows.map fun x => nodeOf x.2).dedup.length then (deduplicateCandles rows).map candleModel
  else (rows.insertionSort fun a b => a.1.tsUtc ≤ b.1.tsUtc).map candleModel

/-- How an engine orders the rows of a scan. -/
abbrev CandleEngine := OrderBy fun x : Candle × Path => x.1.tsUtc

/-- `scan_candles` -/
def scanCandles (engine : CandleEngine) (files : CandleFiles) (q : CandleQuery) :
    Except Exn (List Candle) := do
  let globs := resolveScanPaths files q
  if globs.isEmpty then pure []
  else
    let parts ← globs.mapM (readGlob files)
    pure (emitCandles (engine.orderBy (parts.flatten.filter q.inWindow)))

/-! ## what the calls leave -/

/-- A call for one exchange, symbol and timeframe. -/
def WriteCall.IsFor (call : WriteCall) (exchange symbol : String) (timeframe : Timeframe) : Prop :=
  ∀ candle ∈ call.candles,
    candle.exchange = exchange ∧ candle.symbol = symbol ∧ candle.timeframe = timeframe

/-- Every file is a table with candles of one exchange, symbol and timeframe. -/
def HoldsStream (files : CandleFiles) (exchange symbol : String) (timeframe : Timeframe) : Prop :=
  ∀ path ∈ files, ∃ table, files.lookup path = some (.parquet table) ∧
    ∀ row ∈ table.rows, row.exchange = exchange ∧ row.symbol = symbol ∧ row.timeframe = timeframe

section

variable {sha256 : String → String} {files : CandleFiles} {exchange symbol : String}
  {timeframe : Timeframe}

/-- A call leaves the files as they are, or writes its batch. -/
theorem afterCall_cases (sha256 : String → String) (files : CandleFiles) (call : WriteCall) :
    afterCall sha256 files call = files ∨
      ∃ target, afterCall sha256 files call =
        files.insert target
          (.parquet ⟨"ohlcv.v1", [candlesToArrow sha256 call.candles], true⟩) := by
  unfold afterCall writeCandles
  cases hcandles : call.candles with
  | nil => exact Or.inl rfl
  | cons head rest =>
    simp only
    by_cases hsame : sameHashes files (derivePartitionPath head call.mode call.nodeId ++
        [call.fileName]) (candlesToArrow sha256 (head :: rest))
    · rw [if_pos hsame]
      exact Or.inl rfl
    · rw [if_neg hsame]
      exact Or.inr ⟨_, rfl⟩

theorem afterCall_holds {call : WriteCall} (hcall : call.IsFor exchange symbol timeframe)
    (h : HoldsStream files exchange symbol timeframe) :
    HoldsStream (afterCall sha256 files call) exchange symbol timeframe := by
  rcases afterCall_cases sha256 files call with heq | ⟨target, heq⟩
  · rw [heq]
    exact h
  · rw [heq]
    intro path hpath
    by_cases htarget : path = target
    · subst htarget
      refine ⟨_, AList.lookup_insert files, ?_⟩
      intro row hrow
      obtain ⟨candle, hcandle, rfl⟩ : ∃ candle ∈ call.candles,
          { candle with dataHash := some (computeDataHash sha256 candle) } = row := by
        simpa [Table.rows, candlesToArrow] using hrow
      exact hcall candle hcandle
    · rw [AList.lookup_insert_ne htarget]
      have hold : path ∈ files := by
        rcases (AList.mem_insert files).mp hpath with heq | hmem
        · exact absurd heq htarget
        · exact hmem
      exact h path hold

/-- After any calls for one stream the files hold that stream. -/
theorem afterCalls_holds (sha256 : String → String) {calls : List WriteCall}
    (hcalls : ∀ call ∈ calls, call.IsFor exchange symbol timeframe) :
    HoldsStream (afterCalls sha256 calls) exchange symbol timeframe := by
  induction calls using List.reverseRecOn with
  | nil =>
    intro path hpath
    exact absurd hpath (AList.notMem_empty path)
  | append_singleton calls call ih =>
    unfold afterCalls
    rw [List.foldl_concat]
    apply afterCall_holds
    · exact hcalls call (List.mem_append_right calls (List.mem_singleton_self call))
    · exact ih fun c hc => hcalls c (List.mem_append_left [call] hc)

end

/-! ## what a scan emits -/

/-- The stored rows of a window, with their files. -/
def windowRows (files : CandleFiles) (q : CandleQuery) : List (Candle × Path) :=
  ((resolveScanPaths files q).flatMap (storedBelow files)).filter q.inWindow

/-- A base directory is there, but nothing of the stream is below it: the engine fails. -/
def Unmatched (files : CandleFiles) (q : CandleQuery) : Prop :=
  ∃ dir ∈ resolveScanPaths files q, parquetFiles files dir = []

/-- Two nodes have rows in the window. -/
def TwoNodesIn (files : CandleFiles) (q : CandleQuery) : Prop :=
  ∃ x ∈ windowRows files q, ∃ y ∈ windowRows files q, nodeOf x.2 ≠ nodeOf y.2

/-- No two rows of the window have one timestamp. -/
def DistinctTimes (files : CandleFiles) (q : CandleQuery) : Prop :=
  ((windowRows files q).map fun x => x.1.tsUtc).Nodup

section

variable {files : CandleFiles} {q : CandleQuery} {engine : CandleEngine} {timeframe : Timeframe}

theorem readGlob_eq {exchange symbol : String} (h : HoldsStream files exchange symbol timeframe)
    {dir : Path} (hdir : parquetFiles files dir ≠ []) :
    readGlob files dir = .ok (storedBelow files dir) := by
  have hrows : ∀ path ∈ parquetFiles files dir, (do
      let rows ← tableRows files path
      pure (rows.map fun row => (row, path)) : Except Exn (List (Candle × Path))) =
        .ok ((rowsOf files path).map fun row => (row, path)) := by
    intro path hpath
    obtain ⟨table, htable, -⟩ := h path (mem_of_mem_parquetFiles hpath)
    rw [tableRows_eq_ok ⟨table, htable⟩]
    rfl
  unfold readGlob
  rw [List.isEmpty_eq_false_iff.mpr hdir, mapM_eq_ok hrows]
  show Except.ok _ = _
  rfl

/-- A scan fails exactly when a base directory has nothing of the stream. -/
theorem scanCandles_error (engine : CandleEngine) (h : Unmatched files q) :
    ∃ e, scanCandles engine files q = .error e := by
  obtain ⟨dir, hdir, hnone⟩ := h
  have hraises : Raises (readGlob files dir) := by
    refine ⟨.osError, ?_⟩
    unfold readGlob
    rw [hnone]
    rfl
  obtain ⟨e, he⟩ := raises_mapM.mpr ⟨dir, hdir, hraises⟩
  have hsome : (resolveScanPaths files q).isEmpty = false :=
    List.isEmpty_eq_false_iff.mpr (List.ne_nil_of_mem hdir)
  refine ⟨e, ?_⟩
  unfold scanCandles
  simp only [hsome, he]
  rfl

/-- Otherwise it emits what it finds in the window. -/
theorem scanCandles_eq {exchange symbol : String}
    (h : HoldsStream files exchange symbol timeframe) (hmatched : ¬ Unmatched files q) :
    scanCandles engine files q = .ok (emitCandles (engine.orderBy (windowRows files q))) := by
  have hglobs : ∀ dir ∈ resolveScanPaths files q, readGlob files dir =
      .ok (storedBelow files dir) := by
    intro dir hdir
    exact readGlob_eq h fun hnone => hmatched ⟨dir, hdir, hnone⟩
  by_cases hnil : resolveScanPaths files q = []
  · have hrows : windowRows files q = [] := by
      unfold windowRows
      rw [hnil]
      rfl
    have hordered : engine.orderBy [] = [] := (engine.perm []).eq_nil
    rw [hrows, hordered]
    unfold scanCandles
    simp only [hnil]
    rfl
  · have hsome : (resolveScanPaths files q).isEmpty = false := List.isEmpty_eq_false_iff.mpr hnil
    unfold scanCandles
    simp only [hsome, mapM_eq_ok hglobs]
    show Except.ok _ = _
    rfl

/-- The rows of a window are of the stream. -/
theorem stream_of_mem_windowRows {exchange symbol : String}
    (h : HoldsStream files exchange symbol timeframe) {x : Candle × Path}
    (hx : x ∈ windowRows files q) :
    x.1.exchange = exchange ∧ x.1.symbol = symbol ∧ x.1.timeframe = timeframe := by
  obtain ⟨dir, -, hx⟩ := List.mem_flatMap.mp (List.mem_of_mem_filter hx)
  obtain ⟨path, hpath, hx⟩ := List.mem_flatMap.mp hx
  obtain ⟨row, hrow, rfl⟩ := List.mem_map.mp hx
  obtain ⟨table, htable, hstream⟩ := h path (mem_of_mem_parquetFiles hpath)
  rw [rowsOf_of_lookup htable] at hrow
  exact hstream row hrow

end

/-! ## strictly increasing timestamps -/

/-- The order of a scan, by time. -/
abbrev CandleLe (a b : Candle × Path) : Prop := a.1.tsUtc ≤ b.1.tsUtc

instance : IsTrans (Candle × Path) CandleLe := ⟨fun _ _ _ h h' => le_trans h h'⟩

instance : Std.Total CandleLe := ⟨fun _ _ => le_total _ _⟩

/-- Sorted rows are strictly increasing when their times are distinct. -/
theorem insertionSort_strict_iff (rows : List (Candle × Path)) :
    ((rows.insertionSort CandleLe).map candleModel).Pairwise (fun a b => a.tsUtc < b.tsUtc) ↔
      (rows.map fun x => x.1.tsUtc).Nodup := by
  have hperm := (List.perm_insertionSort CandleLe rows).map fun x => x.1.tsUtc
  have hsorted := List.pairwise_insertionSort CandleLe rows
  rw [← hperm.nodup_iff, List.pairwise_map, List.Nodup, List.pairwise_map]
  constructor
  · intro hstrict
    exact hstrict.imp fun hlt => ne_of_lt hlt
  · intro hnodup
    exact hsorted.imp₂ (fun a b hle hne => lt_of_le_of_ne hle hne) hnodup

variable {rows : List (Candle × Path)} {timeframe : Timeframe}

/-- After the dedup of one stream all times are distinct. -/
theorem deduplicateCandles_strict {exchange symbol : String} (hstream : ∀ x ∈ rows,
      x.1.exchange = exchange ∧ x.1.symbol = symbol ∧ x.1.timeframe = timeframe) :
    ((deduplicateCandles rows).map candleModel).Pairwise (fun a b => a.tsUtc < b.tsUtc) := by
  obtain ⟨hown, hkeys⟩ := foldl_keepStep_keys candleLogicalKey replaces rows
  have hkept : ((rows.foldl (keepStep candleLogicalKey replaces) []).map Prod.snd).map
      candleLogicalKey = firstSeen (rows.map candleLogicalKey) := by
    rw [← hkeys, List.map_map]
    exact List.map_congr_left hown
  have htimes : ∀ k ∈ firstSeen (rows.map candleLogicalKey),
      k = ⟨exchange, symbol, timeframe, k.tsUtc⟩ := by
    intro k hk
    obtain ⟨x, hx, rfl⟩ := List.mem_map.mp (mem_firstSeen.mp hk)
    obtain ⟨hexchange, hsymbol, htimeframe⟩ := hstream x hx
    unfold candleLogicalKey
    rw [hexchange, hsymbol, htimeframe]
  apply (insertionSort_strict_iff _).mpr
  have hnodup : ((firstSeen (rows.map candleLogicalKey)).map CandleKey.tsUtc).Nodup := by
    apply List.Nodup.map_on
    · intro k hk k' hk' heq
      rw [htimes k hk, htimes k' hk', heq]
    · exact nodup_firstSeen _
  rw [← hkept, List.map_map] at hnodup
  exact hnodup

theorem emitCandles_strict_iff {exchange symbol : String} (hstream : ∀ x ∈ rows,
      x.1.exchange = exchange ∧ x.1.symbol = symbol ∧ x.1.timeframe = timeframe) :
    (emitCandles rows).Pairwise (fun a b => a.tsUtc < b.tsUtc) ↔
      (∃ x ∈ rows, ∃ y ∈ rows, nodeOf x.2 ≠ nodeOf y.2) ∨
        (rows.map fun x => x.1.tsUtc).Nodup := by
  have hnodes : 2 ≤ (rows.map fun x => nodeOf x.2).dedup.length ↔
      ∃ x ∈ rows, ∃ y ∈ rows, nodeOf x.2 ≠ nodeOf y.2 := by
    rw [two_le_length_dedup_iff]
    simp
  unfold emitCandles
  by_cases hmulti : 2 ≤ (rows.map fun x => nodeOf x.2).dedup.length
  · rw [if_pos hmulti]
    exact iff_of_true (deduplicateCandles_strict hstream) (Or.inl (hnodes.mp hmulti))
  · rw [if_neg hmulti, insertionSort_strict_iff]
    constructor
    · exact Or.inr
    · intro hor
      rcases hor with htwo | hnodup
      · exact absurd (hnodes.mpr htwo) hmulti
      · exact hnodup

/-- A stable sort. -/
def stableCandleEngine : CandleEngine where
  orderBy rows := rows.insertionSort CandleLe
  perm rows := List.perm_insertionSort CandleLe rows
  sorted rows := List.pairwise_insertionSort CandleLe rows

/-- A candle of the first minute. -/
def firstMinute (close : ℚ) : Candle :=
  ⟨0, "upbit", "KRW-BTC", .m1, 10, 12, 9, close, 1, none, none⟩

def firstHour : CandleQuery := ⟨"upbit", "KRW-BTC", .m1, 0, 3600000000, [.historical]⟩

/-- A candle of the first minute, and one of the second in another file. -/
def twoCalls : List WriteCall :=
  [{ candles := [firstMinute 10], snapshotId := "s1" },
    { candles := [{ firstMinute 11 with tsUtc := 60000000 }], snapshotId := "s2" }]

/-- The columns that a digest covers: time, prices and volume. -/
def Candle.priced (c : Candle) : Int × (ℚ × ℚ × ℚ × ℚ) × ℚ :=
  (c.tsUtc, (c.openPrice, c.high, c.low, c.close), c.volume)

/-- The columns that a batch gives. -/
def Candle.columns (c : Candle) : Int × (ℚ × ℚ × ℚ × ℚ) × ℚ × Option ℚ :=
  (c.tsUtc, (c.openPrice, c.high, c.low, c.close), c.volume, c.value)

/-- The file is a table of the rows of the batch, in any order. -/
def HoldsBatch (files : CandleFiles) (target : Path) (candles : List Candle) : Prop :=
  ∃ rows, tableRows files target = .ok rows ∧
    (rows.map Candle.columns).Perm (candles.map Candle.columns)

/-- The file is a table with the digests of the batch. -/
def HoldsDigests (sha256 : String → String) (files : CandleFiles) (target : Path)
    (candles : List Candle) : Prop :=
  ∃ rows, tableRows files target = .ok rows ∧ ∀ digest, digest ∈ rows.map Candle.dataHash ↔
    digest ∈ candles.map fun c => some (computeDataHash sha256 c)

/-- Rows with their own digests, which tell them from the candles of a batch. -/
structure Hashed (sha256 : String → String) (rows candles : List Candle) : Prop where
  stored : ∀ row ∈ rows, row.dataHash = some (computeDataHash sha256 row)
  separates : ∀ row ∈ rows, ∀ c ∈ candles,
    computeDataHash sha256 row = computeDataHash sha256 c → row.priced = c.priced

section

variable {sha256 : String → String} {files files' : CandleFiles} {call : WriteCall}
  {partition : Path}

theorem sameHashes_iff {target : Path} {candles : List Candle} :
    sameHashes files target (candlesToArrow sha256 candles) = true ↔
      HoldsDigests sha256 files target candles := by
  unfold sameHashes HoldsDigests candlesToArrow
  cases tableRows files target with
  | error e => simp
  | ok rows =>
    simp only [Except.ok.injEq, exists_eq_left', Bool.and_eq_true, List.all_eq_true,
      List.contains_iff_mem, List.map_map, Function.comp_def, List.forall_mem_map]
    grind

/-- Lists with one image under `f` have one under every `g` that `f` decides. -/
theorem same_image {α β γ : Type} {l l' : List α} {f : α → β} {g : α → γ}
    (h : ∀ a ∈ l, ∀ b ∈ l', f a = f b → g a = g b) (hsame : ∀ y, y ∈ l.map f ↔ y ∈ l'.map f)
    (z : γ) : z ∈ l.map g ↔ z ∈ l'.map g := by
  simp only [List.mem_map] at hsame ⊢
  constructor
  · rintro ⟨a, ha, rfl⟩
    obtain ⟨b, hb, heq⟩ := (hsame _).mp ⟨a, ha, rfl⟩
    exact ⟨b, hb, (h a ha b hb heq.symm).symm⟩
  · rintro ⟨b, hb, rfl⟩
    obtain ⟨a, ha, heq⟩ := (hsame _).mpr ⟨b, hb, rfl⟩
    exact ⟨a, ha, h a ha b hb heq⟩

theorem computeDataHash_congr {c c' : Candle} (h : c.priced = c'.priced) :
    computeDataHash sha256 c = computeDataHash sha256 c' := by
  simp only [Candle.priced, Prod.mk.injEq] at h
  obtain ⟨hts, ⟨hopen, hhigh, hlow, hclose⟩, hvolume⟩ := h
  simp only [computeDataHash, hts, hopen, hhigh, hlow, hclose, hvolume]

theorem columns_candlesToArrow (candles : List Candle) :
    (candlesToArrow sha256 candles).map Candle.columns = candles.map Candle.columns := by
  unfold candlesToArrow
  rw [List.map_map]
  rfl

/-- Where digests tell rows apart, a file has those of the batch when it has its prices. -/
theorem Hashed.holdsDigests_iff {target : Path} {rows candles : List Candle}
    (h : Hashed sha256 rows candles) (hrows : tableRows files target = .ok rows) :
    HoldsDigests sha256 files target candles ↔
      ∀ p, p ∈ rows.map Candle.priced ↔ p ∈ candles.map Candle.priced := by
  have hstored : rows.map Candle.dataHash = rows.map fun c => some (computeDataHash sha256 c) :=
    List.map_congr_left h.stored
  unfold HoldsDigests
  simp only [hrows, Except.ok.injEq, exists_eq_left']
  rw [hstored]
  constructor
  · exact same_image fun row hrow c hc heq => h.separates row hrow c hc (Option.some.inj heq)
  · exact same_image fun row _ c _ heq => congrArg some (computeDataHash_congr heq)

/-- When a call returns, its file holds the batch, unless the shortcut met other rows with the
digests of the batch. Over a file that `write_candles` has left, these are rows with the prices
of the batch that have another `value` or are there another number of times. -/
theorem writeCandles_holds_iff (h : writeCandles sha256 files call = .ok (partition, files')) :
    (HoldsBatch files' (partition ++ [call.fileName]) call.candles ↔
      (HoldsDigests sha256 files (partition ++ [call.fileName]) call.candles →
        HoldsBatch files (partition ++ [call.fileName]) call.candles)) ∧
    ∀ rows, tableRows files (partition ++ [call.fileName]) = .ok rows →
      Hashed sha256 rows call.candles →
      (HoldsBatch files' (partition ++ [call.fileName]) call.candles ↔
        ((∀ p, p ∈ rows.map Candle.priced ↔ p ∈ call.candles.map Candle.priced) →
          ∀ x, (rows.map Candle.columns).count x = (call.candles.map Candle.columns).count x)) := by
  have hiff : HoldsBatch files' (partition ++ [call.fileName]) call.candles ↔
      (HoldsDigests sha256 files (partition ++ [call.fileName]) call.candles →
        HoldsBatch files (partition ++ [call.fileName]) call.candles) := by
    unfold writeCandles at h
    cases hcandles : call.candles with
    | nil =>
      rw [hcandles] at h
      cases h
    | cons head rest =>
      simp only [hcandles] at h
      split at h
      · rename_i hsame
        cases h
        exact ⟨fun hold _ => hold, fun hold => hold (sameHashes_iff.mp hsame)⟩
      · rename_i hnew
        cases h
        -- the batch was written, because the digests were not there
        refine iff_of_true ⟨_, tableRows_of_lookup (AList.lookup_insert files), ?_⟩ ?_
        · simp [Table.rows, columns_candlesToArrow]
        · exact fun hdigests => absurd (sameHashes_iff.mpr hdigests) hnew
  refine ⟨hiff, fun rows hrows hhashed => ?_⟩
  rw [hiff, hhashed.holdsDigests_iff hrows, HoldsBatch, hrows, ← List.perm_iff_count]
  simp only [Except.ok.injEq, exists_eq_left']

/-- Only an empty batch raises. -/
theorem writeCandles_eq (sha256 : String → String) (files : CandleFiles) {head : Candle}
    {rest : List Candle} (h : call.candles = head :: rest) :
    writeCandles sha256 files call =
      .ok (derivePartitionPath head call.mode call.nodeId, afterCall sha256 files call) := by
  unfold afterCall writeCandles
  rw [h]
  dsimp only
  split_ifs <;> rfl

end

/-- A call for the first minute. -/
def firstCall (value : Option ℚ) : WriteCall :=
  { candles := [{ firstMinute 10 with value := value }], snapshotId := "s1" }

/-- A call for the first two minutes, under the same name. -/
def nextCall : WriteCall :=
  { candles := [firstMinute 10, { firstMinute 11 with tsUtc := 60000000 }], snapshotId := "s1" }

def firstPartition : Path := derivePartitionPath (firstMinute 10) none none

/-- The file of the first call. -/
def firstFiles : CandleFiles := afterCall id ∅ (firstCall none)

/-- Over the file of a first call, a repetition leaves it and a longer batch replaces it. -/
theorem writeCandles_holds_repeated :
    HoldsBatch (afterCall id firstFiles (firstCall none)) (firstPartition ++ ["part-s1.parquet"])
        (firstCall none).candles ∧
      HoldsBatch (afterCall id firstFiles nextCall) (firstPartition ++ ["part-s1.parquet"])
        nextCall.candles := by
  have hrepeated : writeCandles id firstFiles (firstCall none) = .ok (firstPartition, _) :=
    writeCandles_eq id firstFiles rfl
  have hnext : writeCandles id firstFiles nextCall = .ok (firstPartition, _) :=
    writeCandles_eq id firstFiles rfl
  refine ⟨(writeCandles_holds_iff hrepeated).1.mpr fun _ => ⟨_, rfl, by decide +kernel⟩,
    (writeCandles_holds_iff hnext).1.mpr ?_⟩
  rintro ⟨rows, hrows, hdigests⟩
  cases hrows
  have hnew := (hdigests _).mpr (List.mem_map_of_mem (.tail _ (.head _)))
  exact absurd hnew (by decide +kernel)

/-- The `value` of a second call is not stored. -/
theorem old_value_stays :
    writeCandles id firstFiles (firstCall (some 10)) = .ok (firstPartition, firstFiles) ∧
      ¬HoldsBatch firstFiles (firstPartition ++ ["part-s1.parquet"])
        (firstCall (some 10)).candles := by
  have hsame : sameHashes firstFiles (firstPartition ++ ["part-s1.parquet"])
      (candlesToArrow id (firstCall (some 10)).candles) = true := by decide +kernel
  refine ⟨if_pos hsame, ?_⟩
  rintro ⟨rows, hrows, hperm⟩
  cases hrows
  revert hperm
  decide +kernel

end MctraderData.Storage
