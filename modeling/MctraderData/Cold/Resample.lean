import MctraderData.Aggregation.Core
import MctraderData.Lib.Raising
import MctraderData.Read.Scan

/-!
# mctrader-data — resampling stored ticks

Model of `cold/duckdb_resample.py` and `cold/polars_fallback.py`: the ticks of a symbol and a
window are read from the L1 files, in order of `ts_utc`, and go through an aggregator of
`aggregation/core.py`.

The two backends select the same rows and differ in how their engine breaks ties: both ask
for an order by `ts_utc` only. An engine is modelled by the order in which it hands out the
selected ticks (`Engine`). Of a row the aggregators see a `Tick`; side, receipt and raw JSON
play no part in bars. `Decimal(text)` is a parameter (`Decimals`).
-/

namespace MctraderData.Cold

open Nas (Exn)
open Aggregation
open Compactor
open Read
open Lib (Raises raises_mapM not_raises_ok exists_ok_of_not_raises)

/-! ## bar labels and timeframes -/

/-- `Decimal(text)`, on finite numbers; `none` is the exception. -/
structure Decimals where
  ofText : String → Option ℚ
  one : ofText "1" = some 1

/-- The alternatives of `_BAR_LABEL_RE`. -/
def barKinds : List (BarKind × String) :=
  [(.time, "time_"), (.vol, "vol_"), (.tick, "tick_"), (.dollar, "dollar_")]

/-- `.+` up to `$`, which also matches before a last newline. -/
def labelSuffix (text : List Char) : Option String :=
  let body := if text.getLast? = some '\n' then text.dropLast else text
  if body.isEmpty || body.contains '\n' then none else some (String.ofList body)

/-- `_BAR_LABEL_RE.match` -/
def matchBarLabel (label : String) : Option (BarKind × String) :=
  barKinds.findSome? fun (kind, text) =>
    if hasPrefix text label then
      (labelSuffix (label.toList.drop text.length)).map fun suffix => (kind, suffix)
    else none

/-- `parse_bar_label` -/
def parseBarLabel (decimals : Decimals) (label : String) : Except Exn BarLabel :=
  match matchBarLabel label with
  | none => .error .valueError
  | some (kind, suffix) =>
    match decimals.ofText suffix with
    | none => .error .valueError
    | some threshold => if threshold ≤ 0 then .error .valueError else .ok ⟨kind, threshold⟩

/-- `_build_aggregator` -/
def buildAggregator (spec : BarLabel) : Except Exn Aggregator :=
  match spec.kind with
  | .time =>
    if spec.threshold.den ≠ 1 then .error .valueError
    else (timeBarAggregator (spec.threshold.num * 1000000)).map .time
  | .vol => (volumeBarAggregator spec.threshold).map .threshold
  | .tick =>
    if spec.threshold.den ≠ 1 then .error .valueError
    else (tickBarAggregator spec.threshold.num).map .threshold
  | .dollar => (dollarBarAggregator spec.threshold).map .threshold

/-- The closed timeframes. -/
inductive Timeframe where
  | m1
  | m5
  | m15
  | h1
  | h4
  | d1
deriving DecidableEq, Repr

/-- `Timeframe(timeframe)` -/
def Timeframe.ofText : String → Option Timeframe
  | "1m" => some .m1
  | "5m" => some .m5
  | "15m" => some .m15
  | "1h" => some .h1
  | "4h" => some .h4
  | "1d" => some .d1
  | _ => none

/-- `_SECONDS_BY_TIMEFRAME` -/
def Timeframe.seconds : Timeframe → Nat
  | .m1 => 60
  | .m5 => 300
  | .m15 => 900
  | .h1 => 3600
  | .h4 => 14400
  | .d1 => 86400

theorem Timeframe.seconds_pos (tf : Timeframe) : 0 < tf.seconds := by
  cases tf <;> decide

/-- `TimeBarAggregator(timeframe=timedelta(seconds=seconds))` -/
def Timeframe.bar (tf : Timeframe) : TimeBar := ⟨tf.seconds, tf.seconds_pos⟩

/-! ## the read -/

/-- The arguments that select ticks. -/
structure Query where
  symbol : String
  start : Int
  stop : Int
  exchange : Option String := none

/-- `_tick_root` -/
def tickRoot : MctraderData.Path :=
  ["market", "transaction", "schema_version=tick.v1", "tier=L1"]

/-- The part of `_row_to_tick` that reaches a bar. -/
def rowToTick (r : TickRow) : Tick := ⟨r.tsUtc, r.exchange, r.symbol, r.price, r.quantity⟩

/-- The `WHERE` of `_build_select_sql` -/
def Query.selects (q : Query) (t : Tick) : Bool :=
  decide (t.symbol = q.symbol) && decide (q.start ≤ t.tsUtc) && decide (t.tsUtc < q.stop) &&
    q.exchange.all fun exchange => decide (t.exchange = exchange)

variable {W : Type}

/-- `_has_parquet_root` -/
def hasParquetRoot (files : Files W TickRow) : Bool :=
  files.keys.any fun path => tickRoot.isPrefixOf path.dropLast

/-- The selected rows of `read_parquet(<root>/**/*.parquet)`. The engine fails when the glob
matches nothing and on a file that is not parquet. -/
def selectTicks (files : Files W TickRow) (q : Query) : Except Exn (List Tick) :=
  if hasParquetRoot files then
    if (parquetFiles files tickRoot).isEmpty then .error .osError
    else do
      let parts ← (parquetFiles files tickRoot).mapM (tableRows files)
      pure ((parts.flatten.map rowToTick).filter q.selects)
  else .ok []

/-- The order in which an engine hands out what it is to order by `ts_utc`. -/
abbrev Engine := OrderBy Tick.tsUtc

/-- `_iter_ticks` -/
def iterTicks (engine : Engine) (files : Files W TickRow) (q : Query) : Except Exn (List Tick) :=
  (selectTicks files q).map engine.orderBy

/-- `_validate_window` -/
def validateWindow (q : Query) : Except Exn Unit :=
  if q.stop ≤ q.start then .error .valueError else .ok ()

/-! ## the resampler -/

/-- `CandleModel` with `source="transaction_derived"` -/
structure Candle where
  tsUtc : Int
  exchange : String
  symbol : String
  timeframe : Timeframe
  openPrice : ℚ
  high : ℚ
  low : ℚ
  close : ℚ
  volume : ℚ
  value : ℚ
deriving DecidableEq

/-- `_to_candle`. The numbers of a bar have been cut and checked, so `CandleModel` takes them as
they are. -/
def toCandle (symbol : String) (tf : Timeframe) (bar : Bar) : Candle where
  tsUtc := bar.genesisTs
  exchange := bar.exchange
  symbol := symbol
  timeframe := tf
  openPrice := bar.openPrice
  high := bar.high
  low := bar.low
  close := bar.close
  volume := bar.volume
  value := bar.value

/-- The bars of a stream, unless a call raises. -/
def Session.toExcept (s : Session) : Except Exn (List Bar) :=
  match s.raised with
  | some e => .error e
  | none => .ok s.bars

/-- `resample_time` -/
def resampleTime (engine : Engine) (files : Files W TickRow) (q : Query) (timeframe : String) :
    Except Exn (List Candle) := do
  validateWindow q
  match Timeframe.ofText timeframe with
  | none => .error .valueError
  | some tf =>
    let ticks ← iterTicks engine files q
    -- the window that is open at the end is not emitted
    let bars ← Session.toExcept (Aggregator.run (.time tf.bar) ticks)
    pure (bars.map (toCandle q.symbol tf))

/-- `resample_information_bar` -/
def resampleInformationBar (decimals : Decimals) (engine : Engine) (files : Files W TickRow)
    (q : Query) (label : String) : Except Exn (List Bar) := do
  validateWindow q
  let spec ← parseBarLabel decimals label
  let agg ← buildAggregator spec
  let ticks ← iterTicks engine files q
  Session.toExcept (agg.run ticks)

/-! ## what is stored -/

/-- The ticks of a file. -/
def fileTicks (files : Files W TickRow) (path : MctraderData.Path) : List Tick :=
  match files.lookup path with
  | some (.parquet table) => table.rows.map rowToTick
  | _ => []

/-- The ticks of the L1 files. -/
def storedTicks (files : Files W TickRow) : List Tick :=
  (parquetFiles files tickRoot).flatMap (fileTicks files)

/-- The engine can read the L1 files. -/
structure Readable (files : Files W TickRow) : Prop where
  found : hasParquetRoot files = true → parquetFiles files tickRoot ≠ []
  tables : ∀ path ∈ parquetFiles files tickRoot, ∃ table, files.lookup path = some (.parquet table)

/-- The stored ticks that a query selects. -/
def selected (files : Files W TickRow) (q : Query) : List Tick :=
  (storedTicks files).filter q.selects

theorem Query.selects_iff (q : Query) (t : Tick) :
    q.selects t = true ↔ t.symbol = q.symbol ∧ q.start ≤ t.tsUtc ∧ t.tsUtc < q.stop ∧
      ∀ exchange ∈ q.exchange, t.exchange = exchange := by
  unfold selects
  simp only [Bool.and_eq_true, decide_eq_true_eq, Option.all_eq_true]
  tauto

variable {files : Files W TickRow}

theorem symbol_of_mem_selected {q : Query} {t : Tick} (ht : t ∈ selected files q) :
    t.symbol = q.symbol :=
  ((q.selects_iff t).mp (List.mem_filter.mp ht).2).1

/-- A file below the root is found. -/
theorem hasParquetRoot_of_mem {path : MctraderData.Path}
    (hpath : path ∈ parquetFiles files tickRoot) : hasParquetRoot files = true := by
  obtain ⟨hmem, hbelow⟩ := mem_parquetFiles.mp hpath
  rw [Bool.and_eq_true] at hbelow
  exact List.any_eq_true.mpr ⟨path, AList.mem_keys.mp hmem, hbelow.1⟩

/-- Reading all files one by one. -/
theorem mapM_tableRows {paths : List MctraderData.Path}
    (h : ∀ path ∈ paths, ∃ table, files.lookup path = some (.parquet table)) :
    ∃ parts, paths.mapM (tableRows files) = .ok parts ∧
      parts.flatten.map rowToTick = paths.flatMap (fileTicks files) := by
  induction paths with
  | nil => exact ⟨[], rfl, rfl⟩
  | cons path paths ih =>
    obtain ⟨parts, hparts, hflatten⟩ := ih fun p hp => h p (List.mem_cons_of_mem path hp)
    obtain ⟨table, htable⟩ := h path List.mem_cons_self
    have hticks : fileTicks files path = table.rows.map rowToTick := by
      unfold fileTicks
      rw [htable]
    refine ⟨table.rows :: parts, ?_, ?_⟩
    · rw [List.mapM_cons, tableRows_of_lookup htable, hparts]
      rfl
    · rw [List.flatten_cons, List.map_append, hflatten, List.flatMap_cons, hticks]

/-- What is read from readable files. -/
theorem selectTicks_eq (h : Readable files) (q : Query) :
    selectTicks files q = .ok (selected files q) := by
  unfold selectTicks
  by_cases hroot : hasParquetRoot files = true
  · obtain ⟨parts, hparts, hflatten⟩ := mapM_tableRows h.tables
    have hsome : (parquetFiles files tickRoot).isEmpty = false :=
      List.isEmpty_eq_false_iff.mpr (h.found hroot)
    rw [if_pos hroot, hsome, hparts]
    show Except.ok ((parts.flatten.map rowToTick).filter q.selects) = _
    rw [hflatten]
    rfl
  · rw [if_neg hroot]
    have hnone : parquetFiles files tickRoot = [] := by
      apply List.eq_nil_iff_forall_not_mem.mpr
      intro path hpath
      exact hroot (hasParquetRoot_of_mem hpath)
    unfold selected storedTicks
    rw [hnone]
    rfl

/-- Without readable files every query fails in the same way. -/
theorem selectTicks_error (h : ¬ Readable files) :
    ∃ e, ∀ q, selectTicks files q = .error e := by
  by_cases hroot : hasParquetRoot files = true
  · by_cases hsome : parquetFiles files tickRoot = []
    · refine ⟨.osError, fun q => ?_⟩
      unfold selectTicks
      rw [if_pos hroot, hsome]
      rfl
    · cases hparts : (parquetFiles files tickRoot).mapM (tableRows files) with
      | error e =>
        refine ⟨e, fun q => ?_⟩
        unfold selectTicks
        rw [if_pos hroot, List.isEmpty_eq_false_iff.mpr hsome, hparts]
        rfl
      | ok parts =>
        exfalso
        refine h ⟨fun _ => hsome, fun path hpath => ?_⟩
        have hok : ¬ Raises (tableRows files path) := by
          intro hraises
          exact not_raises_ok parts (hparts ▸ raises_mapM.mpr ⟨path, hpath, hraises⟩)
        obtain ⟨rows, hrows⟩ := exists_ok_of_not_raises hok
        obtain ⟨table, htable, -⟩ := tableRows_eq_ok_iff.mp hrows
        exact ⟨table, htable⟩
  · exfalso
    exact h ⟨fun hroot' => absurd hroot' hroot, fun path hpath =>
      absurd (hasParquetRoot_of_mem hpath) hroot⟩

end MctraderData.Cold
