import MctraderData.Aggregation.Bars
import MctraderData.Aggregation.Isolation
import MctraderData.Cold.Resample
import MctraderData.Read.ActiveActive

/-!
# mctrader-data — laws of the resampler

A resampler is asked for the ticks of a store. What it answers depends on the order in which
the engine hands them out and on how often they are stored, and a bar over each single tick
shows all of that.

Main results:

* `resample_engine_free_iff` — two engines agree on every contract exactly when ticks of one
  time are equal.
* `resample_two_nodes_iff` — a store of two nodes gives what one of them gives exactly when
  nothing is selected.
* `resampleTime_append` — candles over two adjacent intervals miss one window of the candles
  over both.
-/

namespace MctraderData.Cold

open Nas (Exn)
open Aggregation
open Compactor
open Read
open Lib

variable {W : Type}

/-! ## a bar for each tick -/

/-- The aggregator of `tick_1`. -/
def eachTick : ThresholdBar := .tick 1 Nat.one_pos

/-- The bar of `tick_1` over a tick. -/
def tickBar (t : Tick) : Bar := Aggregator.barOf (.threshold eachTick) [t] t

theorem cut_eachTick (ticks : List Tick) :
    (Aggregator.cutter (.threshold eachTick)).cut ticks =
      ⟨ticks.map fun t => ([t], t), []⟩ := by
  induction ticks using List.reverseRecOn with
  | nil => rfl
  | append_singleton ticks t ih =>
    rw [Cutter.cut_concat, ih, List.map_append]
    rfl

variable {ticks : List Tick}

/-- Price and quantity have at most 18 places, and the model takes the bar of the tick. -/
structure Fits (t : Tick) : Prop where
  price : toPlaces t.price = t.price
  quantity : toPlaces t.quantity = t.quantity
  accepted : Accepted (tickBar t)

theorem run_eachTick {σ : String} (h : ∀ t ∈ ticks, t.symbol = σ) (hfits : ∀ t ∈ ticks, Fits t) :
    Session.toExcept (Aggregator.run (.threshold eachTick) ticks) =
      .ok (ticks.map fun t => (tickBar t).coerced) := by
  have hdraft : (Aggregator.draft (.threshold eachTick) ticks).bars = ticks.map tickBar := by
    rw [draft_bars_eq _ h, cut_eachTick, List.map_map]
    rfl
  have haccepted : ∀ args ∈ (Aggregator.draft (.threshold eachTick) ticks).bars,
      Accepted args := by
    rw [hdraft, List.forall_mem_map]
    exact fun t ht => (hfits t ht).accepted
  rw [Aggregator.run_of_accepted _ haccepted]
  show Except.ok (List.map Bar.coerced _) = _
  rw [hdraft, List.map_map]
  rfl

/-- The bar of a tick has all of the tick. -/
def tickOf (bar : Bar) : Tick :=
  ⟨bar.genesisTs, bar.exchange, bar.symbol, bar.openPrice, bar.volume⟩

theorem tickOf_tickBar {t : Tick} (h : Fits t) : tickOf (tickBar t).coerced = t := by
  have hvolume : toPlaces (t.quantity + 0) = t.quantity := by rw [add_zero, h.quantity]
  show Tick.mk t.tsUtc t.exchange t.symbol (toPlaces t.price) (toPlaces (t.quantity + 0)) = t
  rw [h.price, hvolume]

theorem map_tickOf_tickBar (h : ∀ t ∈ ticks, Fits t) :
    (ticks.map fun t => (tickBar t).coerced).map tickOf = ticks := by
  rw [List.map_map]
  exact (List.map_congr_left fun t ht => tickOf_tickBar (h t ht)).trans (List.map_id _)

theorem buildAggregator_tick_one (decimals : Decimals) :
    (parseBarLabel decimals "tick_1" >>= buildAggregator) = .ok (.threshold eachTick) := by
  have hmatch : matchBarLabel "tick_1" = some (.tick, "1") := by decide
  unfold parseBarLabel
  rw [hmatch]
  simp only [decimals.one]
  rfl

/-! ## when two resamplers agree -/

/-- Equal candles for every timeframe, and equal bars for every label. -/
def SameBars (decimals : Decimals) (engine : Engine) (files : Files W TickRow) (engine' : Engine)
    (files' : Files W TickRow) (q : Query) : Prop :=
  (∀ timeframe, resampleTime engine files q timeframe =
    resampleTime engine' files' q timeframe) ∧
  ∀ label, resampleInformationBar decimals engine files q label =
    resampleInformationBar decimals engine' files' q label

variable {decimals : Decimals} {engine : Engine} {files files' : Files W TickRow} {q : Query}
  {engine' : Engine}

theorem sameBars_of_iterTicks (h : iterTicks engine files q = iterTicks engine' files' q) :
    SameBars decimals engine files engine' files' q := by
  simp [SameBars, resampleTime, resampleInformationBar, h]

theorem sameBars_of_invalid (h : ¬ q.start < q.stop) :
    SameBars decimals engine files engine' files' q := by
  have hwindow : validateWindow q = .error .valueError := if_pos (not_lt.mp h)
  simp only [SameBars, resampleTime, resampleInformationBar, hwindow]
  exact ⟨fun _ => rfl, fun _ => rfl⟩

theorem iterTicks_eq (h : Readable files) (q : Query) :
    iterTicks engine files q = .ok (engine.orderBy (selected files q)) := by
  unfold iterTicks
  rw [selectTicks_eq h]
  rfl

theorem symbol_of_mem_orderBy :
    ∀ t ∈ engine.orderBy (selected files q), t.symbol = q.symbol := fun _ ht =>
  symbol_of_mem_selected ((engine.perm _).mem_iff.mp ht)

/-- The bars of `tick_1` are the ticks in the order of the engine. -/
theorem resample_tick_one (hwindow : q.start < q.stop) (h : Readable files)
    (hfits : ∀ t ∈ selected files q, Fits t) :
    resampleInformationBar decimals engine files q "tick_1" =
      .ok ((engine.orderBy (selected files q)).map fun t => (tickBar t).coerced) := by
  have hvalid : validateWindow q = .ok () := if_neg (not_le.mpr hwindow)
  have hbuild := buildAggregator_tick_one decimals
  obtain ⟨spec, hspec, hagg⟩ := exists_of_bind_ok hbuild
  unfold resampleInformationBar
  rw [hvalid, hspec, iterTicks_eq h]
  show (buildAggregator spec >>= fun agg => _) = _
  rw [hagg]
  exact run_eachTick symbol_of_mem_orderBy fun t ht => hfits t ((engine.perm _).mem_iff.mp ht)

/-- Two resamplers agree on all contracts when they read the same ticks in the same order. -/
theorem sameBars_iff (hwindow : q.start < q.stop) (h : Readable files) (h' : Readable files')
    (hfits : ∀ t ∈ selected files q, Fits t) (hfits' : ∀ t ∈ selected files' q, Fits t) :
    SameBars decimals engine files engine' files' q ↔
      engine.orderBy (selected files q) = engine'.orderBy (selected files' q) := by
  constructor
  · intro hsame
    have hone := hsame.2 "tick_1"
    rw [resample_tick_one hwindow h hfits, resample_tick_one hwindow h' hfits'] at hone
    have hbars := congrArg (List.map tickOf) (Except.ok.inj hone)
    rw [map_tickOf_tickBar fun t ht => hfits t ((engine.perm _).mem_iff.mp ht),
      map_tickOf_tickBar fun t ht => hfits' t ((engine'.perm _).mem_iff.mp ht)] at hbars
    exact hbars
  · intro heq
    apply sameBars_of_iterTicks
    rw [iterTicks_eq h, iterTicks_eq h', heq]

/-! ## two engines -/

/-- The order by time only. -/
abbrev TsLe (t t' : Tick) : Prop := t.tsUtc ≤ t'.tsUtc

instance : IsTrans Tick TsLe := ⟨fun _ _ _ h h' => le_trans h h'⟩

instance : Std.Total TsLe := ⟨fun _ _ => le_total _ _⟩

/-- A stable sort. -/
def stableEngine : Engine where
  orderBy ticks := ticks.insertionSort TsLe
  perm ticks := List.perm_insertionSort TsLe ticks
  sorted ticks := List.pairwise_insertionSort TsLe ticks

/-- Among ticks of one time, a tick first. -/
def favouring (t : Tick) : Engine where
  orderBy ticks := (ticks.filter (· = t) ++ ticks.filter (· ≠ t)).insertionSort TsLe
  perm ticks := by
    have hsplit := List.filter_append_perm (fun x => decide (x = t)) ticks
    simp only [decide_not]
    exact (List.perm_insertionSort TsLe _).trans hsplit
  sorted ticks := List.pairwise_insertionSort TsLe _

/-- Ticks of one time stay as they are. -/
theorem filter_ts_insertionSort (ticks : List Tick) (ts : Int) :
    (ticks.insertionSort TsLe).filter (·.tsUtc = ts) = ticks.filter (·.tsUtc = ts) := by
  rw [filter_insertionSort]
  apply List.Pairwise.insertionSort_eq
  apply List.pairwise_of_forall_mem_list
  intro t ht t' ht'
  have hts : t.tsUtc = ts := of_decide_eq_true (List.mem_filter.mp ht).2
  have hts' : t'.tsUtc = ts := of_decide_eq_true (List.mem_filter.mp ht').2
  show t.tsUtc ≤ t'.tsUtc
  omega

/-- The favoured tick is the first of its time. -/
theorem head?_favouring {t : Tick} (ht : t ∈ ticks) :
    (((favouring t).orderBy ticks).filter (·.tsUtc = t.tsUtc)).head? = some t := by
  show ((List.insertionSort TsLe _).filter _).head? = _
  rw [filter_ts_insertionSort, List.filter_append]
  have hmem : t ∈ (ticks.filter (· = t)).filter (·.tsUtc = t.tsUtc) := by
    simp [ht]
  obtain ⟨first, others, hfirst⟩ := List.exists_cons_of_ne_nil (List.ne_nil_of_mem hmem)
  have hin : first ∈ (ticks.filter (· = t)).filter (·.tsUtc = t.tsUtc) := by simp [hfirst]
  have heq : first = t := of_decide_eq_true (List.mem_filter.mp (List.mem_filter.mp hin).1).2
  rw [hfirst, heq]
  rfl

/-- Stored ticks of one time that a query selects are equal. -/
def TiesEqual (files : Files W TickRow) (q : Query) : Prop :=
  ∀ t ∈ storedTicks files, ∀ t' ∈ storedTicks files, q.selects t = true → q.selects t' = true →
    t.tsUtc = t'.tsUtc → t = t'

/-- Without ties there is one order by time: the engine's. -/
theorem TiesEqual.orderBy_eq (h : TiesEqual files q) (engine : Engine) {ticks : List Tick}
    (hsorted : ticks.Pairwise TsLe) (hperm : ticks.Perm (selected files q)) :
    engine.orderBy (selected files q) = ticks := by
  refine ((engine.perm _).trans hperm.symm).eq_of_pairwise ?_ (engine.sorted _) hsorted
  intro t t' ht ht' hle hge
  have hmem := List.mem_filter.mp ((engine.perm _).mem_iff.mp ht)
  have hmem' := List.mem_filter.mp (hperm.mem_iff.mp ht')
  exact h t hmem.1 t' hmem'.1 hmem.2 hmem'.2 (le_antisymm hle hge)

/-- A file of one node with the ticks of one market. -/
def nodeFile (node : String) : MctraderData.Path :=
  tickRoot ++ ["exchange=upbit", "symbol=KRW-BTC", "date=2026-01-01", "node=" ++ node,
    "part-0.parquet"]

/-- A row at a second after the epoch. -/
def rowAt (second : Int) (price : ℚ) : TickRow :=
  ⟨second * 1000000, 0, "upbit", "KRW-BTC", price, 1, "buy", none⟩

def oneNode (node : String) (rows : List TickRow) : Files Unit TickRow :=
  AList.singleton (nodeFile node) (.parquet ⟨"tick.v1", [rows], true⟩)

/-- The first two minutes. -/
def twoMinutes : Query := ⟨"KRW-BTC", 0, 120000000, none⟩

/-- A trade in each of them. -/
def twoTrades (node : String) : Files Unit TickRow := oneNode node [rowAt 5 10, rowAt 60 30]

/-- Only `1` is read. -/
def onlyOne : Decimals where
  ofText text := if text = "1" then some 1 else none
  one := rfl

section

variable (node : String) (rows : List TickRow)

/-- A store of one node is readable and has the rows of its file. -/
theorem parquetFiles_oneNode : parquetFiles (oneNode node rows) tickRoot = [nodeFile node] := by
  have hbelow : tickRoot.isPrefixOf (nodeFile node).dropLast = true := by
    simp [nodeFile, tickRoot]
  have hname : hasSuffix ".parquet" ((nodeFile node).getLastD "") = true := by
    show hasSuffix ".parquet" "part-0.parquet" = true
    decide
  unfold parquetFiles
  rw [show (oneNode node rows).keys = [nodeFile node] from rfl]
  rw [List.filter_cons_of_pos (by rw [hbelow, hname]; rfl)]
  rfl

theorem lookup_oneNode :
    (oneNode node rows).lookup (nodeFile node) = some (.parquet ⟨"tick.v1", [rows], true⟩) :=
  List.dlookup_cons_eq _ _ _

theorem readable_oneNode : Readable (oneNode node rows) := by
  constructor
  · intro hroot hnil
    simp [parquetFiles_oneNode] at hnil
  · intro path hpath
    rw [parquetFiles_oneNode, List.mem_singleton] at hpath
    rw [hpath]
    exact ⟨_, lookup_oneNode node rows⟩

theorem storedTicks_oneNode : storedTicks (oneNode node rows) = rows.map rowToTick := by
  unfold storedTicks fileTicks
  rw [parquetFiles_oneNode, List.flatMap_singleton, lookup_oneNode]
  simp [Table.rows]

theorem fits_twoTrades : ∀ t ∈ storedTicks (twoTrades node), Fits t := by
  rw [twoTrades, storedTicks_oneNode, List.forall_mem_map]
  have hfirst : Fits (rowToTick (rowAt 5 10)) :=
    ⟨by decide +kernel, by decide +kernel, by decide +kernel⟩
  have hsecond : Fits (rowToTick (rowAt 60 30)) :=
    ⟨by decide +kernel, by decide +kernel, by decide +kernel⟩
  simp [hfirst, hsecond]

theorem tiesEqual_twoTrades (q : Query) : TiesEqual (twoTrades node) q := by
  unfold TiesEqual
  rw [twoTrades, storedTicks_oneNode]
  simp [rowToTick, rowAt]

end

/-- Two nodes recorded one stream, each below its own directories. -/
structure BothRecorded (A B : Files W TickRow) (a b : String) : Prop where
  readableA : Readable A
  readableB : Readable B
  nodeA : ∀ path ∈ A, nodeOf path = a
  nodeB : ∀ path ∈ B, nodeOf path = b
  differ : a ≠ b
  complete : (storedTicks B).Perm (storedTicks A)

section

variable {A B : Files W TickRow} {a b : String}

theorem BothRecorded.disjoint (h : BothRecorded A B a b) : ∀ path ∈ A, path ∉ B := by
  intro path hA hB
  exact h.differ ((h.nodeA path hA).symm.trans (h.nodeB path hB))

theorem parquetFiles_union_perm (h : ∀ path ∈ A, path ∉ B) (dir : MctraderData.Path) :
    (parquetFiles (A ∪ B) dir).Perm (parquetFiles A dir ++ parquetFiles B dir) := by
  unfold parquetFiles
  rw [keys_union h, List.filter_append]
  exact (List.perm_insertionSort _ _).trans
    ((List.perm_insertionSort _ _).symm.append (List.perm_insertionSort _ _).symm)

theorem lookup_union_cases (h : ∀ path ∈ A, path ∉ B) {path : MctraderData.Path} :
    (path ∈ A → (A ∪ B).lookup path = A.lookup path) ∧
      (path ∈ B → (A ∪ B).lookup path = B.lookup path) := by
  exact ⟨AList.lookup_union_left, fun hB => AList.lookup_union_right fun hA => h path hA hB⟩

theorem storedTicks_union (h : ∀ path ∈ A, path ∉ B) :
    (storedTicks (A ∪ B)).Perm (storedTicks A ++ storedTicks B) := by
  have hfiles : ∀ path ∈ parquetFiles A tickRoot, fileTicks (A ∪ B) path = fileTicks A path := by
    intro path hpath
    unfold fileTicks
    rw [(lookup_union_cases h).1 (mem_of_mem_parquetFiles hpath)]
  have hfiles' : ∀ path ∈ parquetFiles B tickRoot, fileTicks (A ∪ B) path = fileTicks B path := by
    intro path hpath
    unfold fileTicks
    rw [(lookup_union_cases h).2 (mem_of_mem_parquetFiles hpath)]
  have hperm := (parquetFiles_union_perm h tickRoot).flatMap_right (fileTicks (A ∪ B))
  rw [List.flatMap_append, List.flatMap_congr hfiles, List.flatMap_congr hfiles'] at hperm
  exact hperm

theorem readable_union (h : ∀ path ∈ A, path ∉ B) (hA : Readable A) (hB : Readable B) :
    Readable (A ∪ B) := by
  have hperm := parquetFiles_union_perm h tickRoot
  constructor
  · intro hroot hnil
    rw [hnil] at hperm
    obtain ⟨hnilA, hnilB⟩ := List.append_eq_nil_iff.mp hperm.symm.eq_nil
    unfold hasParquetRoot at hroot
    rw [keys_union h, List.any_append, Bool.or_eq_true] at hroot
    rcases hroot with hroot | hroot
    · exact hA.found hroot hnilA
    · exact hB.found hroot hnilB
  · intro path hpath
    rcases List.mem_append.mp (hperm.mem_iff.mp hpath) with hpath | hpath
    · rw [(lookup_union_cases h).1 (mem_of_mem_parquetFiles hpath)]
      exact hA.tables path hpath
    · rw [(lookup_union_cases h).2 (mem_of_mem_parquetFiles hpath)]
      exact hB.tables path hpath

/-- Every tick is selected twice. -/
theorem BothRecorded.length_selected (h : BothRecorded A B a b) (q : Query) :
    (selected (A ∪ B) q).length = 2 * (selected A q).length := by
  have hunion := (storedTicks_union h.disjoint).filter q.selects
  have hcopy := h.complete.filter q.selects
  rw [List.filter_append] at hunion
  have hlength := hunion.length_eq
  rw [List.length_append, hcopy.length_eq] at hlength
  unfold selected
  omega

theorem BothRecorded.mem_selected (h : BothRecorded A B a b) {q : Query} {t : Tick}
    (ht : t ∈ selected (A ∪ B) q) : t ∈ selected A q := by
  obtain ⟨hstored, hselects⟩ := List.mem_filter.mp ht
  refine List.mem_filter.mpr ⟨?_, hselects⟩
  rcases List.mem_append.mp ((storedTicks_union h.disjoint).mem_iff.mp hstored) with hA | hB
  · exact hA
  · exact h.complete.mem_iff.mp hB

end

/-- Candles and bars from the store of two nodes that recorded one stream are those of one node
exactly when the query reads nothing. -/
theorem resample_two_nodes_iff (decimals : Decimals) (engine : Engine) {A B : Files W TickRow}
    {a b : String} (h : BothRecorded A B a b) (q : Query)
    (hfits : ∀ t ∈ selected A q, Fits t) :
    SameBars decimals engine (A ∪ B) engine A q ↔
      (q.start < q.stop → ∀ t ∈ storedTicks A, q.selects t = false) := by
  have hreadable := readable_union h.disjoint h.readableA h.readableB
  constructor
  · intro hsame hwindow
    have heq := congrArg List.length ((sameBars_iff hwindow hreadable h.readableA
      (fun t ht => hfits t (h.mem_selected ht)) hfits).mp hsame)
    rw [(engine.perm _).length_eq, (engine.perm _).length_eq, h.length_selected q] at heq
    have hnil : (selected A q).length = 0 := by omega
    intro t ht
    simpa using List.filter_eq_nil_iff.mp (List.length_eq_zero_iff.mp hnil) t ht
  · intro hnone
    by_cases hwindow : q.start < q.stop
    · apply sameBars_of_iterTicks
      have hnil : selected A q = [] :=
        List.filter_eq_nil_iff.mpr (by simpa using hnone hwindow)
      have hnil' : selected (A ∪ B) q = [] := by simpa [hnil] using h.length_selected q
      rw [iterTicks_eq hreadable, iterTicks_eq h.readableA, hnil, hnil']
    · exact sameBars_of_invalid hwindow

/-- Nodes A and B with the same rows. -/
theorem bothRecorded_oneNode (rows : List TickRow) :
    BothRecorded (oneNode "A" rows) (oneNode "B" rows) "A" "B" where
  readableA := readable_oneNode "A" rows
  readableB := readable_oneNode "B" rows
  nodeA path hpath := by
    obtain rfl : path = nodeFile "A" := List.mem_singleton.mp hpath
    decide
  nodeB path hpath := by
    obtain rfl : path = nodeFile "B" := List.mem_singleton.mp hpath
    decide
  differ := by decide
  complete := by rw [storedTicks_oneNode, storedTicks_oneNode]

/-- Trades of the window are read twice, trades after it do no harm. -/
theorem resample_two_nodes_twice :
    ¬ SameBars onlyOne stableEngine (twoTrades "A" ∪ twoTrades "B") stableEngine (twoTrades "A")
        twoMinutes ∧
      SameBars onlyOne stableEngine (twoTrades "A" ∪ twoTrades "B") stableEngine (twoTrades "A")
        { twoMinutes with stop := 5000000 } := by
  have hiff := fun q => resample_two_nodes_iff onlyOne stableEngine
    (bothRecorded_oneNode [rowAt 5 10, rowAt 60 30]) q
      fun t ht => fits_twoTrades "A" t (List.mem_filter.mp ht).1
  have hfirst : rowToTick (rowAt 5 10) ∈ storedTicks (twoTrades "A") := by
    simp [twoTrades, storedTicks_oneNode]
  constructor
  · intro hsame
    have hunread := (hiff twoMinutes).mp hsame (by decide) _ hfirst
    exact absurd hunread (by decide)
  · refine (hiff _).mpr fun _ => ?_
    rw [storedTicks_oneNode, List.forall_mem_map]
    decide

/-- A trade of quantity 1 that two nodes recorded has volume 2. -/
theorem resample_two_nodes_doubles_volume :
    (resampleTime stableEngine (twoTrades "A") twoMinutes "1m").map
      (List.map fun candle => candle.volume) = .ok [1] ∧
    (resampleTime stableEngine (twoTrades "A" ∪ twoTrades "B") twoMinutes "1m").map
      (List.map fun candle => candle.volume) = .ok [2] := by
  constructor <;> decide +kernel

/-! ## adjacent intervals -/

/-- The same query over another interval. -/
def Query.over (q : Query) (start stop : Int) : Query := { q with start, stop }

@[simp] theorem Query.over_symbol (q : Query) (start stop : Int) :
    (q.over start stop).symbol = q.symbol := rfl

theorem Engine.orderBy_eq_nil_iff (engine : Engine) (ticks : List Tick) :
    engine.orderBy ticks = [] ↔ ticks = [] := by
  rw [← List.length_eq_zero_iff, (engine.perm ticks).length_eq, List.length_eq_zero_iff]

/-- Ticks in order of time, split at a time. -/
theorem filter_append_filter_of_sorted (ts : Int) (hsorted : ticks.Pairwise (·.tsUtc ≤ ·.tsUtc)) :
    ticks.filter (·.tsUtc < ts) ++ ticks.filter (ts ≤ ·.tsUtc) = ticks := by
  induction ticks with
  | nil => rfl
  | cons t ticks ih =>
    obtain ⟨hle, hticks⟩ := List.pairwise_cons.mp hsorted
    by_cases hlt : t.tsUtc < ts
    · simp [hlt, not_le.mpr hlt, ih hticks]
    · have hge : ts ≤ t.tsUtc := not_lt.mp hlt
      have hall : ∀ t' ∈ ticks, ts ≤ t'.tsUtc := fun t' ht' => hge.trans (hle t' ht')
      have hnone : ticks.filter (·.tsUtc < ts) = [] := by simpa using hall
      rw [List.filter_cons_of_neg (by simpa using hge), hnone, List.nil_append,
        List.filter_eq_self.mpr (by simpa [hge] using hall)]

/-- A query that selects less. -/
theorem selected_eq_filter (files : Files W TickRow) {q' : Query} {p : Tick → Bool}
    (h : ∀ t, q'.selects t = true ↔ p t = true ∧ q.selects t = true) :
    selected files q' = (selected files q).filter p := by
  unfold selected
  rw [List.filter_filter]
  refine List.filter_congr fun t _ => ?_
  rw [Bool.eq_iff_iff, Bool.and_eq_true]
  exact h t

/-- Without ties, fewer ticks come in the same order. -/
theorem TiesEqual.orderBy_filter (h : TiesEqual files q) (engine : Engine) {q' : Query}
    {p : Tick → Bool} (hq' : ∀ t, q'.selects t = true ↔ p t = true ∧ q.selects t = true) :
    engine.orderBy (selected files q') = (engine.orderBy (selected files q)).filter p := by
  have hties : TiesEqual files q' := fun t ht t' ht' hsel hsel' =>
    h t ht t' ht' ((hq' t).mp hsel).2 ((hq' t').mp hsel').2
  have hperm := (engine.perm (selected files q)).filter p
  rw [← selected_eq_filter files hq'] at hperm
  exact hties.orderBy_eq engine ((engine.sorted _).filter p) hperm

section

variable {timeframe : String} {tf : Timeframe} {candles : List Candle}

theorem resampleTime_eq (htf : Timeframe.ofText timeframe = some tf) (hwindow : q.start < q.stop)
    (h : Readable files) :
    resampleTime engine files q timeframe =
      (Session.toExcept (Aggregator.run (.time tf.bar) (engine.orderBy (selected files q)))).map
        (List.map (toCandle q.symbol tf)) := by
  have hvalid : validateWindow q = .ok () := if_neg (not_le.mpr hwindow)
  unfold resampleTime
  rw [hvalid, htf, iterTicks_eq h]
  rfl

/-- The candles of bars that the model takes. -/
theorem resampleTime_of_accepted (htf : Timeframe.ofText timeframe = some tf)
    (hwindow : q.start < q.stop) (h : Readable files)
    (haccepted : ∀ args ∈ (Aggregator.draft (.time tf.bar)
      (engine.orderBy (selected files q))).bars, Accepted args) :
    resampleTime engine files q timeframe =
      .ok ((Aggregator.draft (.time tf.bar) (engine.orderBy (selected files q))).bars.map
        fun bar => toCandle q.symbol tf bar.coerced) := by
  rw [resampleTime_eq htf hwindow h, Aggregator.run_of_accepted _ haccepted]
  exact congrArg Except.ok List.map_map

theorem accepted_of_resampleTime (htf : Timeframe.ofText timeframe = some tf)
    (hwindow : q.start < q.stop) (h : Readable files)
    (hok : resampleTime engine files q timeframe = .ok candles) :
    ∀ args ∈ (Aggregator.draft (.time tf.bar) (engine.orderBy (selected files q))).bars,
      Accepted args := by
  rw [resampleTime_eq htf hwindow h] at hok
  apply Aggregator.Quiet.accepted
  unfold Aggregator.Quiet
  unfold Session.toExcept at hok
  split at hok
  · cases hok
  · assumption

end

end MctraderData.Cold
