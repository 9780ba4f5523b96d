import Mathlib.Algebra.Order.Ring.Unbundled.Rat
import Mathlib.Algebra.Ring.Rat
import MctraderData.Nas.Definitions

/-!
# mctrader-data — bar aggregation

Model of `aggregation/core.py`: the time bar and the three threshold bars (volume, tick count,
notional). An aggregator keeps one running bar per symbol. A threshold bar closes on the tick
that completes it; a time bar closes when a tick of a later window arrives.

A tick is the part of a `TickRowV1_1` that the aggregators read. Times are microseconds since
the epoch and `Decimal` values are rationals, so sums and products are exact. A closed bar goes
through `InformationBarModel`, which cuts its numbers to 18 places and may refuse it; the call
then raises. The label of a bar is its kind with its threshold; how a `Decimal` is printed is
not modelled.
-/

namespace MctraderData.Aggregation

open Nas (Exn)

/-! ## ticks, states and bars -/

structure Tick where
  tsUtc : Int
  exchange : String
  symbol : String
  price : ℚ
  quantity : ℚ
deriving DecidableEq

/-- `_BarState` -/
structure BarState where
  genesisTs : Int
  openPrice : ℚ
  high : ℚ
  low : ℚ
  close : ℚ
  volume : ℚ := 0
  value : ℚ := 0
  lastTs : Int := 0
  tickCount : Nat := 0
deriving DecidableEq

/-- `update_ohlc` -/
def BarState.updateOhlc (s : BarState) (price : ℚ) : BarState :=
  { s with
    high := if s.high < price then price else s.high
    low := if price < s.low then price else s.low
    close := price }

/-- The discriminators of `bar_label`. -/
inductive BarKind where
  | time
  | vol
  | tick
  | dollar
deriving DecidableEq, Repr

/-- `bar_label`: `f"{kind}_{threshold}"` -/
structure BarLabel where
  kind : BarKind
  threshold : ℚ
deriving DecidableEq

/-- `InformationBarModel` -/
structure Bar where
  barLabel : BarLabel
  genesisTs : Int
  tsClose : Int
  threshold : ℚ
  exchange : String
  symbol : String
  openPrice : ℚ
  high : ℚ
  low : ℚ
  close : ℚ
  volume : ℚ
  value : ℚ
deriving DecidableEq

/-! ## `InformationBarModel` -/

/-- A number in units of the 18th decimal place, cut towards zero. -/
def units (x : ℚ) : Int := (x * 10 ^ 18).num.tdiv (x * 10 ^ 18).den

/-- `_coerce_decimal_38_18`, on the numbers that it takes -/
def toPlaces (x : ℚ) : ℚ := units x / 10 ^ 18

/-- The coefficient has at most 38 digits. -/
def inRange (x : ℚ) : Bool := (units x).natAbs < 10 ^ 38

/-- The fields of type `Decimal38_18` -/
def Bar.numbers (bar : Bar) : List ℚ :=
  [bar.threshold, bar.openPrice, bar.high, bar.low, bar.close, bar.volume, bar.value]

def Bar.coerced (bar : Bar) : Bar :=
  { bar with
    threshold := toPlaces bar.threshold
    openPrice := toPlaces bar.openPrice
    high := toPlaces bar.high
    low := toPlaces bar.low
    close := toPlaces bar.close
    volume := toPlaces bar.volume
    value := toPlaces bar.value }

/-- `_validate_invariants` -/
def Bar.valid (bar : Bar) : Bool :=
  0 < bar.threshold && bar.genesisTs < bar.tsClose && bar.openPrice ≤ bar.high &&
    bar.close ≤ bar.high && bar.low ≤ bar.high && bar.low ≤ bar.openPrice &&
    bar.low ≤ bar.close && 0 ≤ bar.volume

/-- `InformationBarModel(...)`. `quantize` raises `InvalidOperation` on a number out of range. -/
def informationBarModel (args : Bar) : Except Exn Bar :=
  if args.numbers.all inRange then
    if args.coerced.valid then .ok args.coerced else .error .valueError
  else .error .invalidOperation

/-! ## aggregators -/

/-- `VolumeBarAggregator`, `TickBarAggregator` and `DollarBarAggregator`, with the positive
threshold that their constructors ask for. -/
inductive ThresholdBar where
  | volume (threshold : ℚ) (pos : 0 < threshold)
  | tick (threshold : Nat) (pos : 0 < threshold)
  | dollar (threshold : ℚ) (pos : 0 < threshold)

/-- `TimeBarAggregator`: a positive whole number of seconds. -/
structure TimeBar where
  seconds : Nat
  pos : 0 < seconds

inductive Aggregator where
  | time (bar : TimeBar)
  | threshold (bar : ThresholdBar)

/-- The constructor of `TimeBarAggregator`, from a `timedelta` in microseconds. -/
def timeBarAggregator (timeframe : Int) : Except Exn TimeBar :=
  if timeframe ≤ 0 then .error .valueError
  else if timeframe % 1000000 ≠ 0 then .error .valueError
  else if h : 0 < (timeframe / 1000000).toNat then .ok ⟨_, h⟩
  else .error .valueError

def volumeBarAggregator (threshold : ℚ) : Except Exn ThresholdBar :=
  if h : 0 < threshold then .ok (.volume threshold h) else .error .valueError

def tickBarAggregator (threshold : Int) : Except Exn ThresholdBar :=
  if h : 0 < threshold.toNat then .ok (.tick threshold.toNat h) else .error .valueError

def dollarBarAggregator (threshold : ℚ) : Except Exn ThresholdBar :=
  if h : 0 < threshold then .ok (.dollar threshold h) else .error .valueError

/-- The timeframe, in microseconds. -/
def TimeBar.timeframe (b : TimeBar) : Int := b.seconds * 1000000

theorem TimeBar.timeframe_pos (b : TimeBar) : 0 < b.timeframe := by
  have := b.pos
  unfold timeframe
  omega

/-- `_window_start`: down to the last boundary from the epoch. -/
def TimeBar.windowStart (b : TimeBar) (ts : Int) : Int := ts / b.timeframe * b.timeframe

/-- `_threshold_decimal` and `_bar_label` -/
def ThresholdBar.barLabel : ThresholdBar → BarLabel
  | .volume threshold _ => ⟨.vol, threshold⟩
  | .tick threshold _ => ⟨.tick, threshold⟩
  | .dollar threshold _ => ⟨.dollar, threshold⟩

def TimeBar.barLabel (b : TimeBar) : BarLabel := ⟨.time, b.seconds⟩

/-- `_should_close` -/
def ThresholdBar.shouldClose : ThresholdBar → BarState → Bool
  | .volume threshold _, s => decide (threshold ≤ s.volume)
  | .tick threshold _, s => decide (threshold ≤ s.tickCount)
  | .dollar threshold _, s => decide (threshold ≤ s.value)

/-- `_new_state` -/
def newState (t : Tick) : BarState where
  genesisTs := t.tsUtc
  openPrice := t.price
  high := t.price
  low := t.price
  close := t.price
  volume := t.quantity
  value := t.price * t.quantity
  lastTs := t.tsUtc
  tickCount := 1

/-- `_merge` -/
def merge (s : BarState) (t : Tick) : BarState :=
  { s.updateOhlc t.price with
    volume := s.volume + t.quantity
    value := s.value + t.price * t.quantity
    lastTs := t.tsUtc
    tickCount := s.tickCount + 1 }

/-- The arguments of `InformationBarModel` from the running state. -/
def barOfState (label : BarLabel) (s : BarState) (tsClose : Int)
    (exchange symbol : String) : Bar where
  barLabel := label
  genesisTs := s.genesisTs
  tsClose := tsClose
  threshold := label.threshold
  exchange := exchange
  symbol := symbol
  openPrice := s.openPrice
  high := s.high
  low := s.low
  close := s.close
  volume := s.volume
  value := s.value

/-- The closing time of a threshold bar: at least a microsecond after its first tick. -/
def closeTs (genesisTs ts : Int) : Int := if ts ≤ genesisTs then genesisTs + 1 else ts

/-- The arguments of `InformationBarModel` in `_emit` -/
def ThresholdBar.emit (b : ThresholdBar) (s : BarState) (t : Tick) : Bar :=
  barOfState b.barLabel s (closeTs s.genesisTs t.tsUtc) t.exchange t.symbol

/-- `self._states` -/
abbrev States := AList fun _ : String => BarState

/-- The running state of the tick's symbol, with the tick in it. -/
def withTick (states : States) (t : Tick) : BarState :=
  match states.lookup t.symbol with
  | none => newState t
  | some s => merge s t

/-- `_default_process` up to the model: the arguments of a bar that closes, and the states once
it is made. A bar may close on its first tick. -/
def ThresholdBar.advance (b : ThresholdBar) (states : States) (t : Tick) :
    Option Bar × States :=
  if b.shouldClose (withTick states t) then
    (some (b.emit (withTick states t) t), states.erase t.symbol)
  else (none, states.insert t.symbol (withTick states t))

/-- `TimeBarAggregator.process_tick`, in the same way -/
def TimeBar.advance (b : TimeBar) (states : States) (t : Tick) : Option Bar × States :=
  let seed := { newState t with genesisTs := b.windowStart t.tsUtc }
  match states.lookup t.symbol with
  | none => (none, states.insert t.symbol seed)
  | some s =>
    if t.tsUtc < s.genesisTs + b.timeframe then (none, states.insert t.symbol (merge s t))
    else (some (barOfState b.barLabel s (s.genesisTs + b.timeframe) t.exchange t.symbol),
      states.insert t.symbol seed)

def Aggregator.advance : Aggregator → States → Tick → Option Bar × States
  | .time b => b.advance
  | .threshold b => b.advance

/-- The states when the bar is refused: a threshold bar has stored the state with the tick in it,
a time bar has not yet begun the next window. -/
def Aggregator.refused : Aggregator → States → Tick → States
  | .time _, states, _ => states
  | .threshold _, states, t => states.insert t.symbol (withTick states t)

/-- `process_tick` -/
def Aggregator.processTick (agg : Aggregator) (states : States) (t : Tick) :
    Except Exn (Option Bar) × States :=
  match agg.advance states t with
  | (none, states') => (.ok none, states')
  | (some args, states') =>
    match informationBarModel args with
    | .ok bar => (.ok (some bar), states')
    | .error e => (.error e, agg.refused states t)

/-! ## streams -/

/-- The bars emitted so far, the open states, and the exception that ended the stream. -/
structure Session where
  bars : List Bar := []
  states : States := ∅
  raised : Option Exn := none

/-- One tick of a stream. A call that raises ends it. -/
def Aggregator.feed (agg : Aggregator) (s : Session) (t : Tick) : Session :=
  match s.raised with
  | some _ => s
  | none =>
    match agg.processTick s.states t with
    | (.ok bar, states) => ⟨s.bars ++ bar.toList, states, none⟩
    | (.error e, states) => ⟨s.bars, states, some e⟩

/-- A stream of ticks through a new aggregator. -/
def Aggregator.run (agg : Aggregator) (ticks : List Tick) : Session := ticks.foldl agg.feed {}

theorem Aggregator.run_concat (agg : Aggregator) (ticks : List Tick) (t : Tick) :
    agg.run (ticks ++ [t]) = agg.feed (agg.run ticks) t := by
  unfold run
  rw [List.foldl_append]
  rfl

/-- No call raises. -/
def Aggregator.Quiet (agg : Aggregator) (ticks : List Tick) : Prop :=
  (agg.run ticks).raised = none

instance (agg : Aggregator) (ticks : List Tick) : Decidable (agg.Quiet ticks) :=
  inferInstanceAs (Decidable (_ = _))

end MctraderData.Aggregation
