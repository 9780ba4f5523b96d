import MctraderData.Read.Collected

/-!
# mctrader-data — reconstruction of the orderbook

Model of `get_orderbook_at` of `orderbook_replay.py`. The book at a time `t` is a baseline
and the events after it, folded in order up to `t`. The baseline comes from the day's
`orderbook_snapshot.v1` rows if there are any, and otherwise from the first snapshot event
of the day.

A side of the book is a finite map from prices to quantities. Rows are records that have
passed their own validation, which is not part of this repository; the two trees of a store
(snapshots and events) lie in different directories and are two maps.

Times are microseconds since the epoch; the gap between two events is exact.
-/

namespace MctraderData.Read

open Nas
open Compactor

/-! ## books -/

/-- `dict[Decimal, Decimal]`, prices to quantities. -/
abbrev BookSide := AList fun _ : ℚ => ℚ

/-- The dicts `bids` and `asks`. -/
structure Book where
  bids : BookSide := ∅
  asks : BookSide := ∅

/-- `bids if side == "bid" else asks` -/
def Book.on (b : Book) : Side → BookSide
  | .bid => b.bids
  | .ask => b.asks

/-- Change one side. -/
def Book.update (b : Book) (side : Side) (f : BookSide → BookSide) : Book :=
  match side with
  | .bid => { b with bids := f b.bids }
  | .ask => { b with asks := f b.asks }

/-- `if quantity > 0: target[price] = quantity` -/
def putPositive (price quantity : ℚ) (levels : BookSide) : BookSide :=
  if 0 < quantity then levels.insert price quantity else levels

/-- A delta: quantity zero removes the level. -/
def putDelta (price quantity : ℚ) (levels : BookSide) : BookSide :=
  if quantity = 0 then levels.erase price else levels.insert price quantity

structure OrderbookLevel where
  price : ℚ
  quantity : ℚ
deriving DecidableEq

/-- `OrderbookSnapshot`: bids from the highest price down, asks from the lowest up. -/
structure OrderbookSnapshot where
  symbol : String
  tsUtc : Int
  bids : List OrderbookLevel
  asks : List OrderbookLevel
deriving DecidableEq

def levelsOfSide (levels : BookSide) : List OrderbookLevel :=
  levels.entries.map fun e => ⟨e.1, e.2⟩

def Book.bidLevels (b : Book) : List OrderbookLevel :=
  (levelsOfSide b.bids).insertionSort fun x y => y.price ≤ x.price

def Book.askLevels (b : Book) : List OrderbookLevel :=
  (levelsOfSide b.asks).insertionSort fun x y => x.price ≤ y.price

/-- Why a reconstruction halts: an exception of the scan, `GapDetectedError`, or one of the
three `ReconstructionError`s with what their texts name. -/
inductive ReplayError where
  | scan (e : Exn)
  | gapDetected (symbol : String) (afterTs beforeTs : Int)
  | noOrderbookEvents (symbol : String) (day : Int)
  | missingBaseline (symbol : String) (day : Int)
  | nonMonotonic (symbol : String) (ts lastTs : Int)
deriving DecidableEq

/-! ## baselines -/

def applyBaselineRow (b : Book) (r : SnapshotRow) : Book :=
  b.update r.side (putPositive r.price r.quantity)

def applyBaselineEvent (b : Book) (e : EventRow) : Book :=
  b.update e.side (putPositive e.price e.quantity)

/-- The rows of the highest `baseline_seq`, and the time of the first of them. -/
def baselineOfRows (rows : List SnapshotRow) : Option (Int × Book) :=
  match (rows.map SnapshotRow.baselineSeq).max? with
  | none => none
  | some bestSeq =>
    let group := rows.filter fun r => decide (r.baselineSeq = bestSeq)
    match group.head? with
    | none => none
    | some first => some (first.tsUtc, group.foldl applyBaselineRow {})

/-- An event of the baseline group. -/
def inBaseline (baselineTs : Int) (e : EventRow) : Bool :=
  decide (e.tsUtc = baselineTs) && decide (e.eventType = .snapshot)

/-- The first delta after a `§D14` baseline, with everything behind it. -/
def deltasAfter (baselineTs : Int) (events : List EventRow) : List EventRow :=
  events.dropWhile fun e => !(decide (baselineTs < e.tsUtc) && decide (e.eventType = .delta))

/-! ## the fold -/

/-- What the loop carries. -/
structure Replay where
  book : Book
  lastTs : Int

/-- The effect of one event. A snapshot event of another time than the baseline's restarts
its side, if the event before it had another time. -/
def applyEvent (baselineTs : Int) (s : Replay) (e : EventRow) : Book :=
  match e.eventType with
  | .delta => s.book.update e.side (putDelta e.price e.quantity)
  | .snapshot =>
    if e.tsUtc = baselineTs then s.book
    else s.book.update e.side fun levels =>
      putPositive e.price e.quantity (if s.lastTs ≠ e.tsUtc then ∅ else levels)

/-- The query. -/
structure ReplayQuery where
  exchange : String
  symbol : String
  tsUtc : Int
  simulatedClock : Option Int
  gapThresholdSeconds : ℚ := 300

/-- Microseconds as seconds. -/
def seconds (micros : Int) : ℚ := micros / 1000000

/-- The loop over the events behind the baseline. -/
def foldEvents (q : ReplayQuery) (baselineTs : Int) : Replay → List EventRow →
    Except ReplayError Book
  | s, [] => .ok s.book
  | s, e :: rest =>
    if q.tsUtc < e.tsUtc then .ok s.book
    else if q.gapThresholdSeconds < seconds (e.tsUtc - s.lastTs) then
      .error (.gapDetected q.symbol s.lastTs e.tsUtc)
    else if e.tsUtc < s.lastTs then .error (.nonMonotonic q.symbol e.tsUtc s.lastTs)
    else foldEvents q baselineTs ⟨applyEvent baselineTs s e, e.tsUtc⟩ rest

/-- The fallback baseline: the first snapshot event with those of the same time right
behind it. -/
def replayFromEvents (q : ReplayQuery) (events : List EventRow) : Except ReplayError Book :=
  if events.isEmpty then .error (.noOrderbookEvents q.symbol (dayOf q.tsUtc))
  else match events.dropWhile fun e => decide (e.eventType ≠ .snapshot) with
    | [] => .error (.missingBaseline q.symbol (dayOf q.tsUtc))
    | first :: rest =>
      let baselineTs := first.tsUtc
      let group := (first :: rest).takeWhile (inBaseline baselineTs)
      foldEvents q baselineTs ⟨group.foldl applyBaselineEvent {}, baselineTs⟩
        ((first :: rest).dropWhile (inBaseline baselineTs))

/-- The book from a `§D14` baseline, if there is one, and the day's events. -/
def replayBook (q : ReplayQuery) (d14 : Option (Int × Book)) (events : List EventRow) :
    Except ReplayError Book :=
  match d14 with
  | some (baselineTs, book) =>
    foldEvents q baselineTs ⟨book, baselineTs⟩ (deltasAfter baselineTs events)
  | none => replayFromEvents q events

/-! ## get_orderbook_at -/

variable {W : Type}

/-- The files of a store. -/
structure OrderbookStore (W : Type) where
  snapshots : Files W SnapshotRow
  events : Files W EventRow

/-- The calendar of the two scans. -/
structure ReplayEnv where
  snapshots : Env SnapshotRow
  events : Env EventRow

def dayStart (ts : Int) : Int := dayOf ts * microsPerDay

def dayEnd (ts : Int) : Int := dayStart ts + microsPerDay

variable (env : ReplayEnv) (store : OrderbookStore W) (q : ReplayQuery)

/-- The day's snapshot rows. -/
def daySnapshots : List SnapshotRow :=
  scanOrderbookSnapshots env.snapshots store.snapshots q.exchange q.symbol (dayStart q.tsUtc)
    (dayEnd q.tsUtc) q.simulatedClock

/-- The day's events. -/
def dayEvents : Except Exn (List EventRow) :=
  scanOrderbookEvents env.events store.events q.exchange q.symbol (dayStart q.tsUtc)
    (dayEnd q.tsUtc) q.simulatedClock

/-- `_load_baseline_from_d14`: the whole day counts, also what lies behind `ts_utc`. -/
def loadBaselineFromD14 : Option (Int × Book) := baselineOfRows (daySnapshots env store q)

/-- `get_orderbook_at` -/
def getOrderbookAt : Except ReplayError OrderbookSnapshot :=
  match dayEvents env store q with
  | .error e => .error (.scan e)
  | .ok events =>
    match replayBook q (loadBaselineFromD14 env store q) events with
    | .error e => .error e
    | .ok book => .ok ⟨q.symbol, q.tsUtc, book.bidLevels, book.askLevels⟩

/-! ## small facts -/

@[simp] theorem Book.on_update_self (b : Book) (side : Side) (f : BookSide → BookSide) :
    (b.update side f).on side = f (b.on side) := by
  cases side <;> rfl

theorem Book.on_update_ne (b : Book) {side side' : Side} (h : side' ≠ side)
    (f : BookSide → BookSide) : (b.update side f).on side' = b.on side' := by
  cases side <;> cases side' <;> first | rfl | exact absurd rfl h

theorem dayOf_dayStart (ts : Int) : dayOf (dayStart ts) = dayOf ts := by
  unfold dayStart
  unfold dayOf microsPerDay
  omega

theorem dayOf_dayEnd (ts : Int) : dayOf (dayEnd ts) = dayOf ts + 1 := by
  unfold dayEnd dayStart
  unfold dayOf microsPerDay
  omega

theorem dayStart_le (ts : Int) : dayStart ts ≤ ts := by
  unfold dayStart dayOf microsPerDay
  omega

theorem lt_dayEnd (ts : Int) : ts < dayEnd ts := by
  unfold dayEnd dayStart dayOf microsPerDay
  omega

/-- A scan of one day walks the directories of that day and of the next. -/
theorem dateRange_day {R : Type} (env : Env R) (ts : Int) :
    dateRange env (dayStart ts) (dayEnd ts) =
      [env.isoformat (dayOf ts), env.isoformat (dayOf ts + 1)] := by
  have hlen : (dayOf (dayEnd ts) + 1 - dayOf (dayStart ts)).toNat = 2 := by
    rw [dayOf_dayStart, dayOf_dayEnd]
    omega
  unfold dateRange
  rw [hlen, dayOf_dayStart]
  simp [List.range_succ]

/-! ## a day of one file, on which concrete runs are evaluated -/

def markReplay : ReplayEnv := ⟨markEnv SnapshotRow, markEnv EventRow⟩

def bookAt (ts : Int) : ReplayQuery := ⟨"upbit", "KRW-BTC", ts, none, 300⟩

def bookRow (ts : Int) (side : Side) (price quantity : ℚ) : EventRow :=
  ⟨ts, ts, "upbit", "KRW-BTC", .snapshot, side, 0, price, quantity, none⟩

def bookDay (events : List EventRow) : OrderbookStore Unit where
  snapshots := ∅
  events := (∅ : Files Unit EventRow).insert
    ["market", "orderbook", "schema_version=orderbook.v1", "exchange=upbit", "symbol=KRW-BTC",
      "date=D", "a.parquet"]
    (.parquet ⟨"", [events], true⟩)

end MctraderData.Read
