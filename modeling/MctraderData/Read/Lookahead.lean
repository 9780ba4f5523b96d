import Mathlib.Data.Fintype.EquivFin
import MctraderData.Read.Orderbook

/-!
# mctrader-data — lookahead in the reconstruction

Does the book at `t` depend on rows that are later than `t`? The events do not leak: the
fold stops at the first event behind `t`. The baseline does. `_load_baseline_from_d14` takes
the highest `baseline_seq` of the whole day, so one later snapshot row replaces the book.

## Results

* `getOrderbookAt_no_lookahead_iff` — when the book at `t` is a function of the rows up to
  `t`.
-/

namespace MctraderData.Read

open Nas
open Wal (pathLe)
open Compactor
open Lib (Raises raises_error not_raises_ok raises_map raises_mapM raises_bind_pure
  exists_ok_of_not_raises mapM_error_congr)

variable {W R K : Type}

/-! ## stores that agree up to a time -/

/-- The rows up to `t` of what a directory reads as. -/
def eventsUpTo (t : Int) (rows : Except Exn (List (ReadRow EventRow))) :
    Except Exn (List (ReadRow EventRow)) :=
  rows.map fun rows => rows.filter fun r => decide (r.row.tsUtc ≤ t)

/-- Two stores with the same rows up to `t`: in every directory the events, each in its
place, and the snapshot rows, in the order they are read. A directory with an unreadable
event file is unreadable in both. The place is part of the sort key: a later file in front of
an event moves its offset, and with it the order of equal times in two directories. -/
structure AgreeUpTo (t : Int) (s s' : OrderbookStore W) : Prop where
  events : ∀ dir, eventsUpTo t (readParquetRows s'.events dir) =
    eventsUpTo t (readParquetRows s.events dir)
  snapshots : ∀ dir, (readableRows s'.snapshots dir).filter (fun r => decide (r.tsUtc ≤ t)) =
    (readableRows s.snapshots dir).filter fun r => decide (r.tsUtc ≤ t)

/-- `t` is the last microsecond of its day. -/
def EndsDay (t : Int) : Prop := dayEnd t = t + 1

instance (t : Int) : Decidable (EndsDay t) := inferInstanceAs (Decidable (_ = _))

/-- The event scan of a day cannot be made: a name is refused, or a file below one of its
two directories is not a parquet file. -/
def Unscannable (env : ReplayEnv) (s : OrderbookStore W) (q : ReplayQuery) : Prop :=
  ∃ dateStr ∈ dateRange env.events (dayStart q.tsUtc) (dayEnd q.tsUtc),
    match orderbookPartitionDir q.exchange q.symbol dateStr with
    | .error _ => True
    | .ok dir => ∃ path ∈ parquetFiles s.events dir,
        ∀ table, s.events.lookup path ≠ some (.parquet table)

/-! ## agreement is enough -/

/-- A filter that looks at nothing behind `t` may be preceded by the cut at `t`. -/
theorem filter_cut {l : List R} {p cut : R → Bool} (h : ∀ r ∈ l, p r = true → cut r = true) :
    l.filter p = (l.filter cut).filter p := by
  rw [List.filter_filter]
  refine List.filter_congr fun r hr => ?_
  by_cases hp : p r = true
  · rw [hp, h r hr hp]
    rfl
  · rw [Bool.not_eq_true] at hp
    rw [hp, Bool.false_and]

variable {t : Int}

theorem le_of_inWindow (ht : EndsDay t) {kind : RowKind R K} {clock : Option Int} {r : R}
    (h : inWindow kind (dayStart t) (dayEnd t) clock r = true) : kind.tsUtc r ≤ t := by
  unfold inWindow at h
  rw [Bool.and_eq_true, Bool.and_eq_true, decide_eq_true_eq, decide_eq_true_eq] at h
  have hlt : kind.tsUtc r < t + 1 := ht ▸ h.1.2
  omega

section

variable {env : ReplayEnv} {s s' : OrderbookStore W} {q : ReplayQuery}

/-- In a directory of stores that agree, the reads raise alike or return rows that agree. -/
theorem AgreeUpTo.read (h : AgreeUpTo t s s') (dir : Path) :
    (∃ e, readParquetRows s'.events dir = .error e ∧ readParquetRows s.events dir = .error e) ∨
      ∃ rows' rows, readParquetRows s'.events dir = .ok rows' ∧
        readParquetRows s.events dir = .ok rows ∧
        rows'.filter (fun r => decide (r.row.tsUtc ≤ t)) =
          rows.filter fun r => decide (r.row.tsUtc ≤ t) := by
  have hdir := h.events dir
  cases hs' : readParquetRows s'.events dir with
  | error e' =>
    cases hs : readParquetRows s.events dir with
    | error e =>
      rw [hs, hs'] at hdir
      exact Or.inl ⟨e', rfl, congrArg _ (Except.error.inj hdir).symm⟩
    | ok rows =>
      rw [hs, hs'] at hdir
      exact nomatch hdir
  | ok rows' =>
    cases hs : readParquetRows s.events dir with
    | error e =>
      rw [hs, hs'] at hdir
      exact nomatch hdir
    | ok rows =>
      rw [hs, hs'] at hdir
      exact Or.inr ⟨rows', rows, rfl, rfl, Except.ok.inj hdir⟩

/-- One directory of the events, read and cut to the day. -/
def readDay (files : Files W EventRow) (q : ReplayQuery) (dateStr : String) :
    Except Exn (List (ReadRow EventRow)) := do
  let dir ← orderbookPartitionDir q.exchange q.symbol dateStr
  let rows ← readParquetRows files dir
  pure (rows.filter fun r =>
    inWindow eventKind (dayStart q.tsUtc) (dayEnd q.tsUtc) q.simulatedClock r.row)

theorem dayEvents_eq :
    dayEvents env s q =
      ((dateRange env.events (dayStart q.tsUtc) (dayEnd q.tsUtc)).mapM
        (readDay s.events q)).map fun parts =>
          emitRows eventKind (parts.flatten.insertionSort fun a b =>
            sortKey eventKind a ≤ sortKey eventKind b) := by
  show ((List.mapM (readDay s.events q) _ >>= _) >>= _) = _
  cases List.mapM (readDay s.events q)
    (dateRange env.events (dayStart q.tsUtc) (dayEnd q.tsUtc)) with
  | error | ok => rfl

theorem readDay_error (h : AgreeUpTo q.tsUtc s s') (dateStr : String) (e : Exn) :
    readDay s.events q dateStr = .error e ↔ readDay s'.events q dateStr = .error e := by
  unfold readDay
  cases orderbookPartitionDir q.exchange q.symbol dateStr with
  | error e' => rfl
  | ok dir =>
    show (readParquetRows s.events dir >>= _) = _ ↔ (readParquetRows s'.events dir >>= _) = _
    rcases h.read dir with ⟨e', hs', hs⟩ | ⟨rows', rows, hs', hs, _⟩
    · rw [hs, hs']
    · rw [hs, hs']
      exact ⟨fun h => (nomatch h), fun h => (nomatch h)⟩

theorem readDay_congr (h : AgreeUpTo q.tsUtc s s') (hend : EndsDay q.tsUtc)
    (dateStr : String) : readDay s'.events q dateStr = readDay s.events q dateStr := by
  unfold readDay
  cases orderbookPartitionDir q.exchange q.symbol dateStr with
  | error e' => rfl
  | ok dir =>
    have hcut : ∀ rows : List (ReadRow EventRow), rows.filter (fun r =>
        inWindow eventKind (dayStart q.tsUtc) (dayEnd q.tsUtc) q.simulatedClock r.row) =
        (rows.filter fun r => decide (r.row.tsUtc ≤ q.tsUtc)).filter (fun r =>
          inWindow eventKind (dayStart q.tsUtc) (dayEnd q.tsUtc) q.simulatedClock r.row) :=
      fun rows => filter_cut fun r _ hr => decide_eq_true (le_of_inWindow hend hr)
    show (readParquetRows s'.events dir >>= _) = (readParquetRows s.events dir >>= _)
    rcases h.read dir with ⟨e', hs', hs⟩ | ⟨rows', rows, hs', hs, hrows⟩
    · rw [hs, hs']
    · rw [hs, hs']
      show Except.ok (rows'.filter _) = Except.ok (rows.filter _)
      rw [hcut rows', hcut rows, hrows]

/-- An event scan that raises does so on every store that agrees. -/
theorem dayEvents_error (h : AgreeUpTo q.tsUtc s s') {e : Exn}
    (he : dayEvents env s q = .error e) : dayEvents env s' q = .error e := by
  rw [dayEvents_eq] at he ⊢
  cases hs : (dateRange env.events (dayStart q.tsUtc) (dayEnd q.tsUtc)).mapM
      (readDay s.events q) with
  | ok parts =>
    rw [hs] at he
    exact nomatch he
  | error e' =>
    rw [hs] at he
    rw [mapM_error_congr (fun d _ => readDay_error h d) hs]
    exact he

/-- On the last microsecond of a day the whole day lies up to `t`. -/
theorem day_congr (env : ReplayEnv) (h : AgreeUpTo q.tsUtc s s') (hend : EndsDay q.tsUtc) :
    dayEvents env s' q = dayEvents env s q ∧ daySnapshots env s' q = daySnapshots env s q := by
  constructor
  · have hread : readDay s'.events q = readDay s.events q :=
      funext fun d => readDay_congr h hend d
    rw [dayEvents_eq, dayEvents_eq, hread]
  · have hcut : ∀ rows : List SnapshotRow, rows.filter
        (inWindow snapshotKind (dayStart q.tsUtc) (dayEnd q.tsUtc) q.simulatedClock) =
        (rows.filter fun r => decide (r.tsUtc ≤ q.tsUtc)).filter
          (inWindow snapshotKind (dayStart q.tsUtc) (dayEnd q.tsUtc) q.simulatedClock) :=
      fun rows => filter_cut fun r _ hr => decide_eq_true (le_of_inWindow hend hr)
    unfold daySnapshots scanOrderbookSnapshots
    congr 1
    refine List.flatMap_congr fun dateStr _ => ?_
    rw [hcut, h.snapshots, ← hcut]

variable {files : Files W R} {path : Path}

theorem tableRows_raises :
    Raises (tableRows files path) ↔ ∀ table, files.lookup path ≠ some (.parquet table) := by
  constructor
  · intro h table htable
    rw [tableRows_of_lookup htable] at h
    exact not_raises_ok _ h
  · intro h
    by_contra hnot
    obtain ⟨rows, hrows⟩ := exists_ok_of_not_raises hnot
    obtain ⟨table, htable, -⟩ := tableRows_eq_ok_iff.mp hrows
    exact h table htable

theorem readParquetRows_raises {dir : Path} :
    Raises (readParquetRows files dir) ↔
      ∃ path ∈ parquetFiles files dir, ∀ table, files.lookup path ≠ some (.parquet table) := by
  unfold readParquetRows
  rw [raises_bind_pure, raises_mapM]
  constructor
  · intro ⟨⟨path, i⟩, hx, h⟩
    exact ⟨path, List.fst_mem_of_mem_zipIdx hx, tableRows_raises.mp (raises_bind_pure.mp h)⟩
  · intro ⟨path, hpath, h⟩
    obtain ⟨i, hi, rfl⟩ := List.getElem_of_mem hpath
    exact ⟨(_, i), List.mk_mem_zipIdx_iff_getElem?.mpr (List.getElem?_eq_getElem hi),
      raises_bind_pure.mpr (tableRows_raises.mpr h)⟩

theorem dayEvents_raises : Raises (dayEvents env s q) ↔ Unscannable env s q := by
  rw [dayEvents_eq, raises_map, raises_mapM]
  refine exists_congr fun dateStr => and_congr_right fun _ => ?_
  unfold readDay
  cases orderbookPartitionDir q.exchange q.symbol dateStr with
  | error e => exact ⟨fun _ => trivial, fun _ => raises_error e⟩
  | ok dir => exact raises_bind_pure.trans readParquetRows_raises

/-! ## one later snapshot row -/

/-- A later row of the day: one bid at `price`, received in time for the clock. -/
def laterRow (q : ReplayQuery) (seq : Int) (price : ℚ) : SnapshotRow :=
  { tsUtc := q.tsUtc + 1
    receivedAt := q.simulatedClock.getD (q.tsUtc + 1)
    exchange := q.exchange
    symbol := q.symbol
    baselineSeq := seq
    side := .bid
    level := 0
    price := price
    quantity := 1
    payloadHash := ""
    rawJson := none }

/-- The store with one more snapshot file, of one row. -/
def withRow (s : OrderbookStore W) (path : Path) (row : SnapshotRow) : OrderbookStore W :=
  { s with snapshots := s.snapshots.insert path (.parquet ⟨"", [[row]], true⟩) }

/-- The day's directory has room for one more file. -/
theorem exists_new_path (files : Files W R) (dir : Path) :
    ∃ name, hasSuffix ".parquet" name = true ∧ dir ++ [name] ∉ files := by
  let stemOf : Path → String := fun path =>
    String.ofList ((path.getLastD "").toList.take ((path.getLastD "").toList.length - 8))
  obtain ⟨stem, hstem⟩ := Infinite.exists_notMem_finset (files.keys.map stemOf).toFinset
  refine ⟨stem ++ ".parquet", hasSuffix_append stem ".parquet", fun hmem => hstem ?_⟩
  have hname : stemOf (dir ++ [stem ++ ".parquet"]) = stem := by
    have hlen : ".parquet".toList.length = 8 := rfl
    simp only [stemOf, List.getLastD_concat, String.toList_append, List.length_append, hlen,
      Nat.add_sub_cancel, List.take_left, String.ofList_toList]
  rw [List.mem_toFinset, ← hname]
  exact List.mem_map_of_mem (AList.mem_keys.mp hmem)

theorem parquetFiles_insert (hnew : path ∉ files) (c : Content W R) (dir : Path) :
    parquetFiles (files.insert path c) dir =
      if dir.isPrefixOf path.dropLast && hasSuffix ".parquet" (path.getLastD "") then
        (parquetFiles files dir).orderedInsert (pathLe · ·) path
      else parquetFiles files dir := by
  have hkeys : (files.insert path c).keys = path :: files.keys := by
    rw [AList.keys_insert]
    exact congrArg _ (@List.erase_of_not_mem Path instBEqOfDecidableEq inferInstance path
      files.keys fun h => hnew (AList.mem_keys.mpr h))
  unfold parquetFiles
  rw [hkeys, List.filter_cons]
  split <;> rfl

/-- A file that adds no rows may stand anywhere. -/
theorem flatMap_orderedInsert {α β : Type} {r : α → α → Prop} [DecidableRel r] {f : α → List β}
    {a : α} (ha : f a = []) (l : List α) : (l.orderedInsert r a).flatMap f = l.flatMap f := by
  induction l with
  | nil => simp [ha]
  | cons b rest ih =>
    rw [List.orderedInsert_cons]
    split
    · rw [List.flatMap_cons, ha, List.nil_append]
    · rw [List.flatMap_cons, ih, List.flatMap_cons]

/-- A row is read when a file of the directory has it. -/
theorem mem_readableRows {dir : Path} {r : R} :
    r ∈ readableRows files dir ↔ ∃ path ∈ parquetFiles files dir, ∃ table,
      files.lookup path = some (.parquet table) ∧ r ∈ table.rows := by
  unfold readableRows
  rw [List.mem_flatMap]
  refine exists_congr fun path => and_congr_right fun _ => ?_
  constructor
  · intro hr
    split at hr
    · rename_i rows hrows
      obtain ⟨table, htable, rfl⟩ := tableRows_eq_ok_iff.mp hrows
      exact ⟨table, htable, hr⟩
    · simp at hr
  · rintro ⟨table, htable, hr⟩
    rw [tableRows_of_lookup htable]
    exact hr

theorem agreeUpTo_withRow (hnew : path ∉ s.snapshots) (row : SnapshotRow) (hrow : t < row.tsUtc) :
    AgreeUpTo t s (withRow s path row) where
  events _ := rfl
  snapshots dir := by
    have hcut : decide (row.tsUtc ≤ t) = false := decide_eq_false (by omega)
    have hself : tableRows (withRow s path row).snapshots path = .ok [row] :=
      tableRows_of_lookup (AList.lookup_insert _)
    have hkeep : ∀ path' ∈ parquetFiles s.snapshots dir,
        tableRows (withRow s path row).snapshots path' = tableRows s.snapshots path' := by
      intro path' hpath'
      have hne : path' ≠ path := by
        rintro rfl
        exact hnew (mem_parquetFiles.mp hpath').1
      unfold tableRows withRow
      rw [AList.lookup_insert_ne hne]
    unfold readableRows
    rw [List.filter_flatMap, List.filter_flatMap]
    have hfiles := parquetFiles_insert hnew (.parquet ⟨"", [[row]], true⟩) dir
    have hflat : ∀ f : Path → List SnapshotRow, f path = [] →
        (parquetFiles (withRow s path row).snapshots dir).flatMap f =
          (parquetFiles s.snapshots dir).flatMap f := by
      intro f hf
      show (parquetFiles (s.snapshots.insert path _) dir).flatMap f = _
      rw [hfiles]
      split
      · exact flatMap_orderedInsert hf _
      · rfl
    rw [hflat]
    · exact List.flatMap_congr fun path' hpath' => by rw [hkeep path' hpath']
    · rw [hself]
      simp [hcut]

/-- The path of a new file of the day. -/
def dayFile (env : ReplayEnv) (q : ReplayQuery) (name : String) : Path :=
  snapshotDir q.exchange q.symbol (env.snapshots.isoformat (dayOf q.tsUtc)) ++ [name]

variable {name : String}

/-- The new file adds its row to the day, and no other. -/
theorem mem_daySnapshots_withRow {row r : SnapshotRow}
    (hr : r ∈ daySnapshots env (withRow s (dayFile env q name) row) q) :
    r = row ∨ r ∈ daySnapshots env s q := by
  unfold daySnapshots scanOrderbookSnapshots at hr ⊢
  rw [List.mem_insertionSort, List.mem_flatMap] at hr ⊢
  obtain ⟨dateStr, hdate, hr⟩ := hr
  obtain ⟨hread, hwin⟩ := List.mem_filter.mp hr
  obtain ⟨path, hpath, table, hlook, hmem⟩ := mem_readableRows.mp hread
  obtain ⟨hfile, hunder⟩ := mem_parquetFiles.mp hpath
  unfold withRow at hlook hfile
  by_cases heq : path = dayFile env q name
  · subst heq
    rw [AList.lookup_insert] at hlook
    injection hlook with hlook
    injection hlook with hlook
    subst hlook
    exact Or.inl (List.mem_singleton.mp hmem)
  · rw [AList.lookup_insert_ne heq] at hlook
    have hold : path ∈ s.snapshots := AList.lookup_isSome.mp (by rw [hlook]; rfl)
    have hread' := mem_readableRows.mpr
      ⟨path, mem_parquetFiles.mpr ⟨hold, hunder⟩, table, hlook, hmem⟩
    exact Or.inr ⟨dateStr, hdate, List.mem_filter.mpr ⟨hread', hwin⟩⟩

theorem laterRow_mem_daySnapshots (env : ReplayEnv) (s : OrderbookStore W)
    (hname : hasSuffix ".parquet" name = true) (hend : ¬ EndsDay q.tsUtc) (seq : Int) (price : ℚ) :
    laterRow q seq price ∈
      daySnapshots env (withRow s (dayFile env q name) (laterRow q seq price)) q := by
  have hstart : dayStart q.tsUtc ≤ q.tsUtc + 1 := by
    have := dayStart_le q.tsUtc
    omega
  have hstop : q.tsUtc + 1 < dayEnd q.tsUtc := by
    have := lt_dayEnd q.tsUtc
    unfold EndsDay at hend
    omega
  -- the row is received at the clock itself
  have hclock : (q.simulatedClock.all fun clock =>
      decide (q.simulatedClock.getD (q.tsUtc + 1) ≤ clock)) = true := by
    cases q.simulatedClock with
    | none => rfl
    | some clock => exact decide_eq_true (le_refl clock)
  have hwin : inWindow snapshotKind (dayStart q.tsUtc) (dayEnd q.tsUtc) q.simulatedClock
      (laterRow q seq price) = true := by
    unfold inWindow
    rw [Bool.and_eq_true, Bool.and_eq_true]
    exact ⟨⟨decide_eq_true hstart, decide_eq_true hstop⟩, hclock⟩
  have hunder : (snapshotDir q.exchange q.symbol (env.snapshots.isoformat (dayOf q.tsUtc))
      ).isPrefixOf (dayFile env q name).dropLast &&
      hasSuffix ".parquet" ((dayFile env q name).getLastD "") := by
    unfold dayFile
    rw [List.dropLast_concat, List.getLastD_concat, hname, Bool.and_true]
    exact List.isPrefixOf_iff_prefix.mpr List.prefix_rfl
  unfold daySnapshots scanOrderbookSnapshots
  rw [List.mem_insertionSort, List.mem_flatMap]
  refine ⟨env.snapshots.isoformat (dayOf q.tsUtc), ?_, List.mem_filter.mpr ⟨?_, hwin⟩⟩
  · rw [dateRange_day]
    exact List.mem_cons_self
  · refine mem_readableRows.mpr ⟨dayFile env q name,
      mem_parquetFiles.mpr ⟨AList.mem_insert _ |>.mpr (Or.inl rfl), hunder⟩, _,
      AList.lookup_insert _, List.mem_singleton_self _⟩

/-- A row above all others is the baseline, however often it was read. -/
theorem baselineOfRows_top {rows : List SnapshotRow} {row : SnapshotRow} (hmem : row ∈ rows)
    (htop : ∀ r ∈ rows, r = row ∨ r.baselineSeq < row.baselineSeq) :
    ∃ n, baselineOfRows rows =
      some (row.tsUtc, (List.replicate (n + 1) row).foldl applyBaselineRow {}) := by
  have hmax : (rows.map SnapshotRow.baselineSeq).max? = some row.baselineSeq := by
    rw [List.max?_eq_some_iff]
    refine ⟨List.mem_map_of_mem hmem, fun seq hseq => ?_⟩
    obtain ⟨r, hr, rfl⟩ := List.mem_map.mp hseq
    rcases htop r hr with rfl | hlt
    · exact le_refl _
    · exact le_of_lt hlt
  have hgroup : ∀ r ∈ rows.filter (fun r => decide (r.baselineSeq = row.baselineSeq)), r = row := by
    intro r hr
    obtain ⟨hr, hseq⟩ := List.mem_filter.mp hr
    rcases htop r hr with h | hlt
    · exact h
    · have := of_decide_eq_true hseq
      omega
  have hself : row ∈ rows.filter (fun r => decide (r.baselineSeq = row.baselineSeq)) :=
    List.mem_filter.mpr ⟨hmem, decide_eq_true rfl⟩
  obtain ⟨n, hrep⟩ : ∃ n, rows.filter (fun r => decide (r.baselineSeq = row.baselineSeq)) =
      List.replicate (n + 1) row := by
    have hrep := List.eq_replicate_of_mem hgroup
    have hpos := List.length_pos_of_mem hself
    exact ⟨_ - 1, by rwa [Nat.sub_add_cancel hpos]⟩
  refine ⟨n, ?_⟩
  unfold baselineOfRows
  simp only [hmax, hrep]
  rfl

/-- The book of one bid. -/
theorem foldl_replicate_laterRow (q : ReplayQuery) (seq : Int) (price : ℚ) (n : Nat) :
    (List.replicate (n + 1) (laterRow q seq price)).foldl applyBaselineRow {} =
      { bids := (∅ : BookSide).insert price 1 } := by
  induction n with
  | zero => rfl
  | succ n ih =>
    rw [List.replicate_succ', List.foldl_concat, ih]
    show Book.mk (((∅ : BookSide).insert price 1).insert price 1) ∅ = _
    rw [AList.insert_insert]

/-- A baseline behind `t` is the answer: the fold stops at the first event after it. -/
theorem foldEvents_future {baselineTs : Int} (hts : q.tsUtc < baselineTs) (book : Book)
    (events : List EventRow) :
    foldEvents q baselineTs ⟨book, baselineTs⟩ (deltasAfter baselineTs events) = .ok book := by
  have hhead : ∀ e ∈ (deltasAfter baselineTs events).head?, baselineTs < e.tsUtc := by
    intro e he
    have hnot := List.head?_dropWhile_not
      (fun e : EventRow => !(decide (baselineTs < e.tsUtc) && decide (e.eventType = .delta))) events
    unfold deltasAfter at he
    rw [Option.mem_def.mp he] at hnot
    simp only [Bool.not_eq_false', Bool.and_eq_true, decide_eq_true_eq] at hnot
    exact hnot.1
  cases hlist : deltasAfter baselineTs events with
  | nil => rfl
  | cons e rest =>
    have hlt := hhead e (by rw [hlist]; rfl)
    unfold foldEvents
    rw [if_pos (by omega)]

/-- With a later snapshot above the day's others, the book is that snapshot. -/
theorem getOrderbookAt_withRow {seq : Int} {price : ℚ} (hname : hasSuffix ".parquet" name = true)
    (hend : ¬ EndsDay q.tsUtc) (hscan : ¬ Unscannable env s q)
    (hseq : ∀ r ∈ daySnapshots env s q, r.baselineSeq < seq) :
    getOrderbookAt env (withRow s (dayFile env q name) (laterRow q seq price)) q =
      .ok ⟨q.symbol, q.tsUtc, [⟨price, 1⟩], []⟩ := by
  obtain ⟨events, hevents⟩ := exists_ok_of_not_raises (dayEvents_raises.not.mpr hscan)
  obtain ⟨n, hbase⟩ := baselineOfRows_top
    (laterRow_mem_daySnapshots env s hname hend seq price)
    fun r hr => (mem_daySnapshots_withRow hr).imp_right (hseq r)
  rw [foldl_replicate_laterRow] at hbase
  have hevents' : dayEvents env (withRow s (dayFile env q name) (laterRow q seq price)) q =
      .ok events := hevents
  have hreplay : replayBook q
      (some ((laterRow q seq price).tsUtc, { bids := (∅ : BookSide).insert price 1 })) events =
      .ok { bids := (∅ : BookSide).insert price 1 } :=
    foldEvents_future (show q.tsUtc < q.tsUtc + 1 by omega) _ events
  unfold getOrderbookAt loadBaselineFromD14
  simp only [hevents', hbase]
  rw [hreplay]
  rfl

/-- Sequence numbers above all of the day's. -/
theorem exists_later_seq (rows : List SnapshotRow) : ∃ seq, ∀ r ∈ rows, r.baselineSeq < seq := by
  induction rows with
  | nil => exact ⟨0, fun r hr => absurd hr List.not_mem_nil⟩
  | cons row rest ih =>
    obtain ⟨seq, hseq⟩ := ih
    refine ⟨max seq (row.baselineSeq + 1), fun r hr => ?_⟩
    rcases List.mem_cons.mp hr with rfl | hr
    · omega
    · have := hseq r hr
      omega

end

/-! ## when there is no lookahead -/

/-- The book at `t` is a function of the rows up to `t` when `t` ends its day, or when the
events cannot be read at all. On any other time of the day a later snapshot row decides. -/
theorem getOrderbookAt_no_lookahead_iff (env : ReplayEnv) (s : OrderbookStore W)
    (q : ReplayQuery) :
    (∀ s', AgreeUpTo q.tsUtc s s' → getOrderbookAt env s' q = getOrderbookAt env s q) ↔
      EndsDay q.tsUtc ∨ Unscannable env s q := by
  constructor
  · intro h
    by_contra hcond
    push Not at hcond
    obtain ⟨hend, hscan⟩ := hcond
    obtain ⟨seq, hseq⟩ := exists_later_seq (daySnapshots env s q)
    obtain ⟨name, hname, hnew⟩ := exists_new_path s.snapshots
      (snapshotDir q.exchange q.symbol (env.snapshots.isoformat (dayOf q.tsUtc)))
    have hbook : ∀ price, getOrderbookAt env s q = .ok ⟨q.symbol, q.tsUtc, [⟨price, 1⟩], []⟩ := by
      intro price
      rw [← h _ (agreeUpTo_withRow hnew (laterRow q seq price) (Int.lt_succ q.tsUtc))]
      exact getOrderbookAt_withRow hname hend hscan hseq
    have hprices := (hbook 1).symm.trans (hbook 2)
    simp at hprices
  · intro hcond s' hagree
    unfold getOrderbookAt loadBaselineFromD14
    rcases hcond with hend | hscan
    · obtain ⟨hevents, hsnaps⟩ := day_congr env hagree hend
      rw [hevents, hsnaps]
    · obtain ⟨e, he⟩ := dayEvents_raises.mpr hscan
      rw [dayEvents_error hagree he, he]

/-- One bid, in a snapshot event at time `0`. -/
def oneBid : OrderbookStore Unit := bookDay [bookRow 0 .bid 100 1]

/-- The snapshot row of time `11` is in the book of time `10`. -/
theorem getOrderbookAt_reads_later_row :
    AgreeUpTo 10 oneBid (withRow oneBid (dayFile markReplay (bookAt 10) "b.parquet")
      (laterRow (bookAt 10) 1 101)) ∧
    getOrderbookAt markReplay oneBid (bookAt 10) = .ok ⟨"KRW-BTC", 10, [⟨100, 1⟩], []⟩ ∧
    getOrderbookAt markReplay (withRow oneBid (dayFile markReplay (bookAt 10) "b.parquet")
      (laterRow (bookAt 10) 1 101)) (bookAt 10) = .ok ⟨"KRW-BTC", 10, [⟨101, 1⟩], []⟩ :=
  ⟨agreeUpTo_withRow (AList.notMem_empty _) _ (by decide), by decide +kernel, by decide +kernel⟩

end MctraderData.Read
