import MctraderData.Compactor.L1Restart
import MctraderData.Read.Collected

/-!
# mctrader-data — the rows of an L1 file

`_convert_to_arrow` flattens the records of a segment: a trade is one row, a snapshot one
row per level, and a frame of `orderbookdepth` one row per change. Each of the three
converters is a `Converter`: what it flattens, the row of each item, and the proof that
well-formed records convert to exactly those rows.

## Results

* `l1_compaction_exact` — after any crashes and re-runs the L1 object has one row per item
  of the segment, sorted by `ts_utc`.
-/

namespace MctraderData.Compactor

open Lib
open Nas
open Read

/-! ## orderbookdepth -/

/-- One entry of `changes`; each key may be missing. -/
structure DepthChange where
  side : Option String
  price : Option ℚ
  quantity : Option ℚ
deriving DecidableEq

/-- The WAL record of a depth frame. -/
structure DepthFrame where
  tsUtc : Int
  receivedAt : Int
  exchange : String
  symbol : String
  changes : List DepthChange
  rawJson : Option String
deriving DecidableEq

/-- A row of `orderbook_depth.v1` -/
structure DepthRow where
  tsUtc : Int
  receivedAt : Int
  exchange : String
  symbol : String
  side : String
  price : ℚ
  quantity : ℚ
  rawJson : Option String
  nodeId : String
  collectorRunId : String
  ingestSeq : Nat
deriving DecidableEq

instance : Timed DepthRow := ⟨DepthRow.tsUtc⟩

/-- The row of one change. -/
def depthRow (nodeId collectorRunId : String) (ingestSeq : Nat) (frame : DepthFrame)
    (change : DepthChange) : Except Exn DepthRow :=
  match change.side, change.price, change.quantity with
  | some side, some price, some quantity => do
    let price ← decimal128 price
    let quantity ← decimal128 quantity
    pure ⟨frame.tsUtc, frame.receivedAt, frame.exchange, frame.symbol, side, price, quantity,
      frame.rawJson, nodeId, collectorRunId, ingestSeq⟩
  | _, _, _ => .error .valueError

/-- `_orderbookdepth_dicts_to_arrow`, one frame. -/
def depthRows (nodeId collectorRunId : String) (ingestSeq : Nat) (frame : DepthFrame) :
    Except Exn (List DepthRow) :=
  frame.changes.mapM (depthRow nodeId collectorRunId ingestSeq frame)

/-! ## converters -/

/-- A converter with what it is for: the items of a record, and the row of an item. -/
structure Converter (W R : Type) where
  convert : (nodeId collectorRunId : String) → (ingestSeq : Nat) → W → Except Exn (List R)
  Item : Type
  items : Nat → W → List Item
  WellFormed : Item → Prop
  rowOf : (nodeId collectorRunId : String) → Item → R
  convert_eq : ∀ nodeId collectorRunId ingestSeq record,
    (∀ item ∈ items ingestSeq record, WellFormed item) →
    convert nodeId collectorRunId ingestSeq record =
      .ok ((items ingestSeq record).map (rowOf nodeId collectorRunId))

/-- A value `decimal128(38, 18)` can hold. -/
def Fits (value : ℚ) : Prop :=
  (value * 10 ^ 18).den = 1 ∧ -10 ^ 38 < value * 10 ^ 18 ∧ value * 10 ^ 18 < 10 ^ 38

instance (value : ℚ) : Decidable (Fits value) := inferInstanceAs (Decidable (_ ∧ _))

theorem decimal128_eq {value : ℚ} (h : Fits value) : decimal128 value = .ok value := if_pos h

section

variable (lib : RecordLib)

/-- A trade is one row. -/
def tickConverter : Converter TransactionRecord TickRow where
  convert _ _ _ r := tickRows lib r
  Item := TransactionRecord
  items _ r := [r]
  WellFormed r := Fits r.price ∧ Fits r.quantity ∧ lib.acceptsTick (tradeOf r) = true
  rowOf _ _ r := tradeOf r
  convert_eq nodeId collectorRunId ingestSeq r h := by
    obtain ⟨hprice, hquantity, haccepts⟩ := h r List.mem_cons_self
    unfold tickRows
    rw [decimal128_eq hprice, decimal128_eq hquantity]
    exact if_pos haccepts

/-- A level of a snapshot: the snapshot, the side, the position and the level. -/
structure SnapshotLevel where
  snapshot : SnapshotRecord
  side : Side
  level : Nat
  book : BookLevel

def SnapshotLevel.row (i : SnapshotLevel) : SnapshotRow :=
  let seq := lib.baselineSeq i.snapshot.tsUtc
  ⟨i.snapshot.tsUtc, i.snapshot.receivedAt, i.snapshot.exchange, i.snapshot.symbol, seq, i.side,
    i.level, i.book.price, i.book.quantity,
    lib.payloadHash i.snapshot.exchange i.snapshot.symbol seq i.snapshot.bids i.snapshot.asks,
    i.snapshot.rawJson⟩

/-- One side of a snapshot, from the given level on. -/
def sideLevels (r : SnapshotRecord) (side : Side) : Nat → List BookLevel → List SnapshotLevel
  | _, [] => []
  | level, book :: rest => ⟨r, side, level, book⟩ :: sideLevels r side (level + 1) rest

theorem levelRows_eq {r : SnapshotRecord} {side : Side} {level : Nat} {books : List BookLevel}
    (h : ∀ i ∈ sideLevels r side level books, Fits i.book.price ∧ Fits i.book.quantity) :
    levelRows lib r side level books =
      .ok ((sideLevels r side level books).map (SnapshotLevel.row lib)) := by
  induction books generalizing level with
  | nil => rfl
  | cons book rest ih =>
    obtain ⟨hprice, hquantity⟩ := h _ List.mem_cons_self
    have hrest := ih fun i hi => h i (List.mem_cons_of_mem _ hi)
    unfold levelRows
    rw [decimal128_eq hprice, decimal128_eq hquantity, hrest]
    rfl

/-- A snapshot is one row per level, the bids before the asks. -/
def snapshotConverter : Converter SnapshotRecord SnapshotRow where
  convert _ _ _ r := snapshotRows lib r
  Item := SnapshotLevel
  items _ r := sideLevels r .bid 0 r.bids ++ sideLevels r .ask 0 r.asks
  WellFormed i := Fits i.book.price ∧ Fits i.book.quantity
  rowOf _ _ i := i.row lib
  convert_eq nodeId collectorRunId ingestSeq r h := by
    have hbids := levelRows_eq lib fun i hi => h i (List.mem_append_left _ hi)
    have hasks := levelRows_eq lib fun i hi => h i (List.mem_append_right _ hi)
    unfold snapshotRows
    rw [hbids, hasks, List.map_append]
    rfl

end

/-- A change, with its frame and the position of the frame in the segment. -/
structure FrameChange where
  frame : DepthFrame
  ingestSeq : Nat
  change : DepthChange

/-- No key is missing, and the values fit. -/
def FrameChange.WellFormed (i : FrameChange) : Prop :=
  ∃ side price quantity, i.change = ⟨some side, some price, some quantity⟩ ∧ Fits price ∧
    Fits quantity

def FrameChange.row (nodeId collectorRunId : String) (i : FrameChange) : DepthRow :=
  ⟨i.frame.tsUtc, i.frame.receivedAt, i.frame.exchange, i.frame.symbol, i.change.side.getD "",
    i.change.price.getD 0, i.change.quantity.getD 0, i.frame.rawJson, nodeId, collectorRunId,
    i.ingestSeq⟩

/-- A frame is one row per change. -/
def depthConverter : Converter DepthFrame DepthRow where
  convert := depthRows
  Item := FrameChange
  items ingestSeq frame := frame.changes.map (⟨frame, ingestSeq, ·⟩)
  WellFormed := FrameChange.WellFormed
  rowOf := FrameChange.row
  convert_eq nodeId collectorRunId ingestSeq frame h := by
    rw [List.map_map]
    refine mapM_eq_ok fun change hchange => ?_
    obtain ⟨side, price, quantity, heq, hprice, hquantity⟩ := h _ (List.mem_map_of_mem hchange)
    obtain rfl : change = ⟨some side, some price, some quantity⟩ := heq
    unfold depthRow
    simp only []
    rw [decimal128_eq hprice, decimal128_eq hquantity]
    rfl

/-! ## a segment -/

section

variable {W R : Type} (conv : Converter W R)

/-- The items of the records from the given position on. -/
def Converter.itemsFrom : Nat → List W → List conv.Item
  | _, [] => []
  | ingestSeq, record :: rest => conv.items ingestSeq record ++ itemsFrom (ingestSeq + 1) rest

/-- The codec of one channel. A segment of another channel has other records. -/
def Converter.codec (channel schema : String) : Codec W R where
  rowsOf name nodeId collectorRunId ingestSeq record :=
    if name = channel then conv.convert nodeId collectorRunId ingestSeq record
    else .error .notImplementedError
  arrowSchema _ := schema
  lineage path := path.getLastD ""

variable {conv} {channel schema nodeId collectorRunId : String}

theorem Converter.convertFrom_eq {ingestSeq : Nat} {records : List W}
    (h : ∀ item ∈ conv.itemsFrom ingestSeq records, conv.WellFormed item) :
    (conv.codec channel schema).convertFrom channel nodeId collectorRunId ingestSeq records =
      .ok ((conv.itemsFrom ingestSeq records).map (conv.rowOf nodeId collectorRunId)) := by
  induction records generalizing ingestSeq with
  | nil => rfl
  | cons record rest ih =>
    have hfirst :
        (conv.codec channel schema).rowsOf channel nodeId collectorRunId ingestSeq record =
          .ok ((conv.items ingestSeq record).map (conv.rowOf nodeId collectorRunId)) := by
      refine (if_pos rfl).trans (conv.convert_eq _ _ _ _ fun item hitem => ?_)
      exact h item (List.mem_append_left _ hitem)
    have hlater : ∀ item ∈ conv.itemsFrom (ingestSeq + 1) rest, conv.WellFormed item :=
      fun item hitem => h item (List.mem_append_right _ hitem)
    unfold Codec.convertFrom
    rw [hfirst, ih hlater, Converter.itemsFrom, List.map_append]
    rfl

/-- **The table of a well-formed segment**: one row per item, by `ts_utc`. -/
theorem Converter.l1Table_exact [Timed R] {env : Env R} {target : L1Target} {records : List W}
    (hchannel : target.segment.channel = channel)
    (h : ∀ item ∈ conv.itemsFrom 0 records, conv.WellFormed item) :
    ∃ table, l1Table env (conv.codec channel schema) target records = .ok table ∧
      table.rows.Perm ((conv.itemsFrom 0 records).map
        (conv.rowOf target.segment.nodeId target.runId)) ∧
      table.rows.Pairwise fun a b => tsUtc a ≤ tsUtc b := by
  let rows := (conv.itemsFrom 0 records).map (conv.rowOf target.segment.nodeId target.runId)
  have htable : l1Table env (conv.codec channel schema) target records =
      .ok ⟨schema, env.iterBatches (rows.insertionSort fun a b => tsUtc a ≤ tsUtc b), true⟩ := by
    unfold l1Table Codec.convertToArrow
    rw [hchannel, Converter.convertFrom_eq h]
    rfl
  refine ⟨_, htable, ?_⟩
  rw [Table.rows, env.iterBatches_flatten]
  exact ⟨List.perm_insertionSort _ rows, List.pairwise_insertionSort _ rows⟩

end

/-! ## the three channels -/

/-- The channels of `_CHANNEL_SCHEMA_VERSION` -/
inductive Channel where
  | transaction
  | orderbooksnapshot
  | orderbookdepth
deriving DecidableEq

namespace Channel

def name : Channel → String
  | transaction => "transaction"
  | orderbooksnapshot => "orderbooksnapshot"
  | orderbookdepth => "orderbookdepth"

def Record : Channel → Type
  | transaction => TransactionRecord
  | orderbooksnapshot => SnapshotRecord
  | orderbookdepth => DepthFrame

def Row : Channel → Type
  | transaction => TickRow
  | orderbooksnapshot => SnapshotRow
  | orderbookdepth => DepthRow

instance : (ch : Channel) → DecidableEq ch.Record
  | transaction => inferInstanceAs (DecidableEq TransactionRecord)
  | orderbooksnapshot => inferInstanceAs (DecidableEq SnapshotRecord)
  | orderbookdepth => inferInstanceAs (DecidableEq DepthFrame)

instance : (ch : Channel) → DecidableEq ch.Row
  | transaction => inferInstanceAs (DecidableEq TickRow)
  | orderbooksnapshot => inferInstanceAs (DecidableEq SnapshotRow)
  | orderbookdepth => inferInstanceAs (DecidableEq DepthRow)

instance : (ch : Channel) → Timed ch.Row
  | transaction => inferInstanceAs (Timed TickRow)
  | orderbooksnapshot => inferInstanceAs (Timed SnapshotRow)
  | orderbookdepth => inferInstanceAs (Timed DepthRow)

/-- `_convert_to_arrow` -/
def converter (lib : RecordLib) : (ch : Channel) → Converter ch.Record ch.Row
  | transaction => tickConverter lib
  | orderbooksnapshot => snapshotConverter lib
  | orderbookdepth => depthConverter

/-- `_arrow_schema_for_channel` -/
def arrowSchema : Channel → String
  | transaction => "tick.v1"
  | orderbooksnapshot => "orderbook_snapshot.v1"
  | orderbookdepth => "orderbook_depth.v1"

def codec (lib : RecordLib) (ch : Channel) : Codec ch.Record ch.Row :=
  (ch.converter lib).codec ch.name ch.arrowSchema

end Channel

/-! ## main result -/

/-- **L1 compaction is exact and survives crashes.** For every sealed segment of well-formed
records there is one table, with one row per trade, snapshot level or change of the segment
and sorted by `ts_utc`, such that after any crashes and re-runs: once a run has returned the
L1 object is that table, and it stays it; and a run that is not interrupted returns. -/
theorem l1_compaction_exact (ch : Channel) (lib : RecordLib) [Blob (Content ch.Record ch.Row)]
    {env : Env ch.Row} {sealedPath : Path} {target : L1Target} {records : List ch.Record}
    (htarget : l1Target env sealedPath = .ok target) (hchannel : target.segment.channel = ch.name)
    (hwf : ∀ item ∈ (ch.converter lib).itemsFrom 0 records, (ch.converter lib).WellFormed item)
    (dual : Bool) :
    ∃ src : L1Source env (ch.codec lib),
      src.sealedPath = sealedPath ∧ src.target = target ∧ src.records = records ∧
      src.table.rows.Perm (((ch.converter lib).itemsFrom 0 records).map
        ((ch.converter lib).rowOf target.segment.nodeId target.runId)) ∧
      src.table.rows.Pairwise (fun a b => tsUtc a ≤ tsUtc b) ∧
      ∀ s, (src.restartMachine dual).Reaches (L1Source.nasReachable dual) s →
        (s.returned = true → src.Holds dual s.world) ∧
        (s.stage = none → ∀ replies unlinkFaults, (dual = true → Answering replies) →
          let w := L1Source.callWorld s.world replies unlinkFaults
          let run := compactSegment env (ch.codec lib) dual sealedPath
          run.result w = .ok target.path ∧
            (src.restartMachine dual).Reaches (L1Source.nasReachable dual)
              ⟨run.after w, none, true⟩) := by
  obtain ⟨table, htable, hperm, hsorted⟩ :
      ∃ table, l1Table env (ch.codec lib) target records = .ok table ∧ _ :=
    Converter.l1Table_exact hchannel hwf
  refine ⟨⟨sealedPath, target, records, table, htarget, htable⟩, rfl, rfl, rfl, hperm, hsorted, ?_⟩
  intro s hs
  refine ⟨L1Source.restart_holds hs, fun hidle replies unlinkFaults hans => ?_⟩
  exact L1Source.run_compactSegment hs hidle hans unlinkFaults

/-! ## a segment with two changes -/

def depthSegment : Path :=
  ["wal", "bithumb", "orderbookdepth", "BTC", "2026-01-01",
    "segment-20260101T000000Z-n1.ndjson.sealed"]

def depthTarget : L1Target where
  segment := ⟨"bithumb", "orderbookdepth", "BTC", "2026-01-01", "n1"⟩
  runId := "0123456789abcdef"
  dir := ["market", "orderbookdepth", "schema_version=orderbook_depth.v1", "tier=L1",
    "exchange=bithumb", "symbol=BTC", "date=2026-01-01", "node=n1"]
  file := "part-20260101T000000Z-0123456789abcdef.parquet"

/-- A frame with a change on either side. -/
def depthFrame : DepthFrame where
  tsUtc := 5
  receivedAt := 6
  exchange := "bithumb"
  symbol := "BTC"
  changes := [⟨some "bid", some 100, some 1⟩, ⟨some "ask", some 101, some 0⟩]
  rawJson := none

theorem depthFrame_wellFormed :
    ∀ item ∈ depthConverter.itemsFrom 0 [depthFrame], depthConverter.WellFormed item := by
  intro item hitem
  rcases List.mem_cons.mp hitem with rfl | hitem
  · exact ⟨"bid", 100, 1, rfl, by decide +kernel, by decide +kernel⟩
  · obtain rfl := List.mem_singleton.mp hitem
    exact ⟨"ask", 101, 0, rfl, by decide +kernel, by decide +kernel⟩

/-- The segment on disk, and an empty bucket. -/
def depthRun : L1Run DepthFrame DepthRow where
  world := ⟨AList.singleton depthSegment (.ndjson [depthFrame]), [], ∅, none,
    Stream'.const .other, Stream'.const false⟩
  stage := none
  returned := false

/-- The L1 object has a row per change, and a run that returns puts it on NAS. -/
theorem l1_compaction_exact_depth :
    l1Target (markEnv DepthRow) depthSegment = .ok depthTarget ∧
      depthTarget.segment.channel = Channel.orderbookdepth.name ∧
      (∀ item ∈ depthConverter.itemsFrom 0 [depthFrame], depthConverter.WellFormed item) ∧
      ∃ src : L1Source (markEnv DepthRow) (Channel.orderbookdepth.codec plainLib),
        src.table.rows.length = 2 ∧
        ∃ s, (src.restartMachine true).Reaches (L1Source.nasReachable true) s ∧
          s.returned = true ∧ StoredAt s.world depthTarget.path (.parquet src.table) := by
  have htarget : l1Target (markEnv DepthRow) depthSegment = .ok depthTarget := rfl
  obtain ⟨src, hpath, htgt, hrecords, hperm, -, hruns⟩ :=
    l1_compaction_exact .orderbookdepth plainLib htarget rfl depthFrame_wellFormed true
  refine ⟨htarget, rfl, depthFrame_wellFormed, src, hperm.length_eq, ?_⟩
  have hinit : (src.restartMachine true).Reaches (L1Source.nasReachable true) depthRun := by
    refine .init ⟨rfl, rfl, ?_, ?_, rfl⟩
    · rw [hpath, hrecords]
      rfl
    · unfold L1Source.path
      rw [htgt]
      rfl
  have hreturned := ((hruns depthRun hinit).2 rfl (Stream'.const (.ok "etag" none))
    (Stream'.const false) fun _ => Answering.const _ _).2
  have hholds := (hruns _ hreturned).1 rfl
  exact ⟨_, hreturned, rfl, htgt ▸ hholds⟩

end MctraderData.Compactor
