import Mathlib.Data.Finset.Card
import Mathlib.Data.String.Basic
import MctraderData.Lib.Replicas
import MctraderData.Read.Orderbook

/-!
# mctrader-data — reading what two nodes recorded

Two collectors record one stream, each below its own `node=` directories and with its own
times of receipt. A scan of both sorts all rows by time and receipt and keeps the first row
of each logical key; a scan of one node keeps all rows.

So the two agree when nothing of the second node is read, or when the first node's rows have
distinct logical keys and the second node has none that the first does not have yet. A trade
that occurs twice in the stream is one trade in the scan of both.

## Results

* `activeActive_transparent_iff` — when the scans of two nodes and of one give the same
  logical rows, for ticks and for orderbook events; and then the books are the same.
* `scansOnce_iff` — when a scan of snapshots has each row once.
-/

namespace MctraderData.Read

open Nas
open Compactor
open Wal (pathLe)
open Lib (Recording firstSeen mem_firstSeen insertionSort_congr
  filter_insertionSort firstSeen_sublist UnderOwnKey keepStep
  foldl_keepStep_keys mapM_eq_ok except_map_eq)

variable {W R K : Type}

/-! ## what is stored -/

/-- The rows of a file. -/
def rowsOf (files : Files W R) (path : Path) : List R :=
  match tableRows files path with
  | .ok rows => rows
  | .error _ => []

/-- The rows below a directory, with their files. -/
def storedBelow (files : Files W R) (dir : Path) : List (R × Path) :=
  (parquetFiles files dir).flatMap fun path => (rowsOf files path).map fun row => (row, path)

/-- The rows below the directory of a date. -/
def storedOn (files : Files W R) (dirOf : String → Except Exn Path) (dateStr : String) :
    List (R × Path) :=
  match dirOf dateStr with
  | .ok dir => storedBelow files dir
  | .error _ => []

/-- The stored rows of a window that the clock has seen. -/
def seenRows (env : Env R) (kind : RowKind R K) (files : Files W R)
    (dirOf : String → Except Exn Path) (start stop : Int) (clock : Option Int) :
    List (R × Path) :=
  ((dateRange env start stop).flatMap (storedOn files dirOf)).filter fun x =>
    inWindow kind start stop clock x.1

/-- Files that can all be read, with each row below its own date. -/
structure DatedStore (env : Env R) (kind : RowKind R K) (dirOf : String → Except Exn Path)
    (start stop : Int) (files : Files W R) : Prop where
  readable : ∀ path ∈ files, ∃ table, files.lookup path = some (.parquet table)
  dated : ∀ dateStr ∈ dateRange env start stop, ∀ x ∈ storedOn files dirOf dateStr,
    dateStr = env.isoformat (dayOf (kind.tsUtc x.1))

/-- The files of one node. -/
structure NodeStore (env : Env R) (kind : RowKind R K) (dirOf : String → Except Exn Path)
    (start stop : Int) (files : Files W R) (node : String) : Prop extends
    DatedStore env kind dirOf start stop files where
  node : ∀ path ∈ files, nodeOf path = node

/-! ## the scan, without places -/

/-- The order of a scan, apart from the places of the rows. -/
def seenLe (kind : RowKind R K) (x y : R × Path) : Prop :=
  toLex (kind.tsUtc x.1, kind.receivedAt x.1) ≤ toLex (kind.tsUtc y.1, kind.receivedAt y.1)

instance (kind : RowKind R K) : DecidableRel (seenLe kind) :=
  fun _ _ => inferInstanceAs (Decidable (toLex _ ≤ toLex _))

instance (kind : RowKind R K) : IsTrans (R × Path) (seenLe kind) :=
  ⟨fun _ _ _ hxy hyz => le_trans hxy hyz⟩

instance (kind : RowKind R K) : Std.Total (seenLe kind) := ⟨fun _ _ => le_total _ _⟩

/-- The rows of a scan, in their order. -/
def scanned (env : Env R) (kind : RowKind R K) (files : Files W R)
    (dirOf : String → Except Exn Path) (start stop : Int) (clock : Option Int) :
    List (R × Path) :=
  (seenRows env kind files dirOf start stop clock).insertionSort (seenLe kind)

/-- The rows below a directory, with their places. -/
def placedBelow (files : Files W R) (dir : Path) : List (ReadRow R) :=
  ((parquetFiles files dir).zipIdx.map fun (path, fileOffset) =>
    (rowsOf files path).zipIdx.map fun (row, rowIdx) => ⟨fileOffset, rowIdx, row, path⟩).flatten

variable {files : Files W R}

theorem rowsOf_of_lookup {path : Path} {table : Table R}
    (h : files.lookup path = some (.parquet table)) : rowsOf files path = table.rows := by
  unfold rowsOf
  rw [tableRows_of_lookup h]

theorem tableRows_eq_ok {path : Path} (h : ∃ table, files.lookup path = some (.parquet table)) :
    tableRows files path = .ok (rowsOf files path) := by
  obtain ⟨table, htable⟩ := h
  rw [rowsOf_of_lookup htable, tableRows_of_lookup htable]

/-- A store without unreadable files is read in full. -/
theorem readParquetRows_eq_ok {dir : Path}
    (h : ∀ path ∈ files, ∃ table, files.lookup path = some (.parquet table)) :
    readParquetRows files dir = .ok (placedBelow files dir) := by
  have hfiles : ∀ x ∈ (parquetFiles files dir).zipIdx, tableRows files x.1 =
      .ok (rowsOf files x.1) := by
    intro x hx
    have hmem : x.1 ∈ parquetFiles files dir := List.fst_mem_of_mem_zipIdx hx
    exact tableRows_eq_ok (h x.1 (mem_of_mem_parquetFiles hmem))
  unfold readParquetRows placedBelow
  rw [mapM_eq_ok (g := fun x : Path × Nat => (rowsOf files x.1).zipIdx.map fun y : R × Nat =>
    (⟨x.2, y.2, y.1, x.1⟩ : ReadRow R)) fun x hx => by
      show (tableRows files x.1 >>= _) = _
      rw [hfiles x hx]
      rfl]
  rfl

theorem map_placedBelow (files : Files W R) (dir : Path) :
    (placedBelow files dir).map (fun r => (r.row, r.path)) = storedBelow files dir := by
  have hfile : ∀ (path : Path) (i : Nat),
      ((rowsOf files path).zipIdx.map fun y : R × Nat => (⟨i, y.2, y.1, path⟩ : ReadRow R)).map
        (fun r => (r.row, r.path)) = (rowsOf files path).map fun row => (row, path) := by
    intro path i
    rw [List.map_map]
    show (rowsOf files path).zipIdx.map ((fun row => (row, path)) ∘ Prod.fst) = _
    rw [← List.map_map, List.zipIdx_map_fst]
  unfold placedBelow storedBelow
  rw [List.map_flatten, List.map_map, List.flatMap_def]
  congr 1
  show (parquetFiles files dir).zipIdx.map (fun x : Path × Nat =>
    ((rowsOf files x.1).zipIdx.map fun y : R × Nat => (⟨x.2, y.2, y.1, x.1⟩ : ReadRow R)).map
      (fun r => (r.row, r.path))) = _
  simp only [hfile]
  show (parquetFiles files dir).zipIdx.map
    ((fun path => (rowsOf files path).map fun row => (row, path)) ∘ Prod.fst) = _
  rw [← List.map_map, List.zipIdx_map_fst]

theorem pairwise_zipIdx {α : Type} (l : List α) : l.zipIdx.Pairwise fun x y => x.2 < y.2 := by
  rw [List.pairwise_iff_getElem]
  intro i j hi hj hij
  simpa using hij

/-- Below one directory the rows stand in the order of their places. -/
theorem pairwise_placedBelow (files : Files W R) (dir : Path) :
    (placedBelow files dir).Pairwise fun a b =>
      toLex (a.fileOffset, a.rowIdx) ≤ toLex (b.fileOffset, b.rowIdx) := by
  unfold placedBelow
  rw [List.pairwise_flatten]
  constructor
  · intro l hl
    obtain ⟨x, _, rfl⟩ := List.mem_map.mp hl
    rw [List.pairwise_map]
    refine (pairwise_zipIdx _).imp fun h => ?_
    exact Prod.Lex.le_iff.mpr (Or.inr ⟨rfl, le_of_lt h⟩)
  · rw [List.pairwise_map]
    refine (pairwise_zipIdx _).imp fun h a ha b hb => ?_
    obtain ⟨_, _, rfl⟩ := List.mem_map.mp ha
    obtain ⟨_, _, rfl⟩ := List.mem_map.mp hb
    exact Prod.Lex.le_iff.mpr (Or.inl h)

section

variable {env : Env R} {kind : RowKind R K} {dirOf : String → Except Exn Path}
  {files : Files W R} {node : String} {start stop : Int} {clock : Option Int}

/-- Rows of one time and receipt lie below one directory, where places are in order; so
sorting by place too changes nothing. -/
theorem sortKey_le_iff {a b : ReadRow R}
    (h : kind.tsUtc a.row = kind.tsUtc b.row →
      toLex (a.fileOffset, a.rowIdx) ≤ toLex (b.fileOffset, b.rowIdx)) :
    sortKey kind a ≤ sortKey kind b ↔ seenLe kind (a.row, a.path) (b.row, b.path) := by
  unfold sortKey seenLe
  simp only [Prod.Lex.toLex_le_toLex] at h ⊢
  grind

theorem isoformat_injective (env : Env R) : Function.Injective env.isoformat := fun d d' h => by
  simpa [env.fromisoformat_isoformat] using congrArg env.fromisoformat h

/-- The dates of a window are distinct. -/
theorem nodup_dateRange (env : Env R) (start stop : Int) : (dateRange env start stop).Nodup := by
  refine List.Nodup.map (fun i j hij => ?_) List.nodup_range
  have := isoformat_injective env hij
  omega

theorem isoformat_mem_dateRange (env : Env R) {day : Int} :
    env.isoformat day ∈ dateRange env start stop ↔ dayOf start ≤ day ∧ day ≤ dayOf stop := by
  simp only [dateRange, List.mem_map, List.mem_range, (isoformat_injective env).eq_iff]
  constructor
  · rintro ⟨i, hi, rfl⟩
    omega
  · exact fun h => ⟨(day - dayOf start).toNat, by omega, by omega⟩

/-- The rows of one date, with their places. -/
def placedOn (kind : RowKind R K) (files : Files W R) (dirOf : String → Except Exn Path)
    (start stop : Int) (clock : Option Int) (dateStr : String) : List (ReadRow R) :=
  match dirOf dateStr with
  | .ok dir => (placedBelow files dir).filter fun r => inWindow kind start stop clock r.row
  | .error _ => []

theorem map_placedOn (dateStr : String) :
    (placedOn kind files dirOf start stop clock dateStr).map (fun r => (r.row, r.path)) =
      (storedOn files dirOf dateStr).filter fun x => inWindow kind start stop clock x.1 := by
  unfold placedOn storedOn
  cases dirOf dateStr with
  | error e => rfl
  | ok dir =>
    show ((placedBelow files dir).filter _).map _ = (storedBelow files dir).filter _
    rw [← map_placedBelow, List.filter_map]
    rfl

theorem mem_placedOn {dateStr : String} {r : ReadRow R}
    (h : r ∈ placedOn kind files dirOf start stop clock dateStr) :
    (r.row, r.path) ∈ storedOn files dirOf dateStr := by
  have hmem := List.mem_map_of_mem (f := fun r : ReadRow R => (r.row, r.path)) h
  rw [map_placedOn] at hmem
  exact List.mem_of_mem_filter hmem

theorem pairwise_placed (h : DatedStore env kind dirOf start stop files) :
    ((dateRange env start stop).map (placedOn kind files dirOf start stop clock)).flatten.Pairwise
      fun a b => sortKey kind a ≤ sortKey kind b ↔ seenLe kind (a.row, a.path) (b.row, b.path) := by
  rw [List.pairwise_flatten]
  constructor
  · intro l hl
    obtain ⟨dateStr, _, rfl⟩ := List.mem_map.mp hl
    unfold placedOn
    cases dirOf dateStr with
    | error e => exact List.Pairwise.nil
    | ok dir =>
      exact ((pairwise_placedBelow files dir).filter _).imp fun hab => sortKey_le_iff fun _ => hab
  · rw [List.pairwise_map]
    refine (nodup_dateRange env start stop).imp_of_mem fun hd hd' hne a ha b hb =>
      sortKey_le_iff fun hts => ?_
    -- rows below two dates differ in time
    have hdate := h.dated _ hd _ (mem_placedOn ha)
    have hdate' := h.dated _ hd' _ (mem_placedOn hb)
    rw [hts] at hdate
    exact absurd (hdate.trans hdate'.symm) hne

/-- The scan of a store, below directories that have a name. -/
theorem scanRows_eq_ok (h : DatedStore env kind dirOf start stop files)
    (hdir : ∀ dateStr ∈ dateRange env start stop, ∃ dir, dirOf dateStr = .ok dir)
    (clock : Option Int) :
    ∃ rows, scanRows env kind files dirOf start stop clock = .ok rows ∧
      rows.map (fun r => (r.row, r.path)) = scanned env kind files dirOf start stop clock := by
  have hread : ∀ dateStr ∈ dateRange env start stop, (do
      let dir ← dirOf dateStr
      let rows ← readParquetRows files dir
      pure (rows.filter fun r => inWindow kind start stop clock r.row) :
        Except Exn (List (ReadRow R))) =
      .ok (placedOn kind files dirOf start stop clock dateStr) := by
    intro dateStr hdate
    obtain ⟨dir, hdir⟩ := hdir dateStr hdate
    unfold placedOn
    rw [hdir]
    show (readParquetRows files dir >>= _) = _
    rw [readParquetRows_eq_ok h.readable]
    rfl
  have hscan : scanRows env kind files dirOf start stop clock = .ok
      (((dateRange env start stop).map
        (placedOn kind files dirOf start stop clock)).flatten.insertionSort fun a b =>
          sortKey kind a ≤ sortKey kind b) := by
    unfold scanRows
    rw [mapM_eq_ok hread]
    rfl
  refine ⟨_, hscan, ?_⟩
  rw [insertionSort_congr (pairwise_placed h),
    List.map_insertionSort _ (seenLe kind) _ _ fun a _ b _ => Iff.rfl]
  unfold scanned seenRows
  congr 1
  rw [List.map_flatten, List.map_map, List.filter_flatMap, List.flatMap_def]
  congr 1
  exact List.map_congr_left fun dateStr _ => map_placedOn dateStr

end

/-! ## dedup keeps the first of each key -/

section

variable [DecidableEq K] {kind : RowKind R K}

theorem dedupStep_eq_keepStep (kind : RowKind R K) :
    dedupStep kind = keepStep (fun r : ReadRow R => kind.logicalKey r.row) fun existing r =>
      mismatch kind existing.row r.row &&
        decide ((nodeOf r.path).toList < (nodeOf existing.path).toList) := by
  funext byKey r
  cases hfind : byKey.find? fun p => decide (p.1 = kind.logicalKey r.row) <;>
    simp only [dedupStep, keepStep, hfind]

theorem foldl_dedupStep_keys (kind : RowKind R K) (rows : List (ReadRow R)) :
    UnderOwnKey (fun r : ReadRow R => kind.logicalKey r.row) (rows.foldl (dedupStep kind) []) ∧
      (rows.foldl (dedupStep kind) []).map Prod.fst =
        firstSeen (rows.map fun r => kind.logicalKey r.row) := by
  rw [dedupStep_eq_keepStep]
  exact foldl_keepStep_keys _ _ rows

/-- The logical key says the time. -/
def KeyTime (kind : RowKind R K) (keyTs : K → Int) : Prop :=
  ∀ r, keyTs (kind.logicalKey r) = kind.tsUtc r

/-- Rows in order of time are emitted key by key, as each is first seen. -/
theorem deduplicate_keys {keyTs : K → Int} (htime : KeyTime kind keyTs) {rows : List (ReadRow R)}
    (hsorted : rows.Pairwise fun a b => kind.tsUtc a.row ≤ kind.tsUtc b.row) :
    (deduplicate kind rows).map (fun r => kind.logicalKey r.row) =
      firstSeen (rows.map fun r => kind.logicalKey r.row) := by
  obtain ⟨hown, hkeys⟩ := foldl_dedupStep_keys kind rows
  have hfirst : (firstSeen (rows.map fun r => kind.logicalKey r.row)).Pairwise
      fun k k' => keyTs k ≤ keyTs k' := by
    refine List.Pairwise.sublist (firstSeen_sublist _) (List.pairwise_map.mpr ?_)
    refine hsorted.imp fun hab => ?_
    rw [htime, htime]
    exact hab
  have hsnd : ((rows.foldl (dedupStep kind) []).map Prod.snd).map
      (fun r => kind.logicalKey r.row) = (rows.foldl (dedupStep kind) []).map Prod.fst := by
    rw [List.map_map]
    exact List.map_congr_left hown
  -- the rows kept are in order of time, so that the sort leaves them
  have hpair : ((rows.foldl (dedupStep kind) []).map Prod.snd).Pairwise
      fun a b => kind.tsUtc a.row ≤ kind.tsUtc b.row := by
    rw [← hkeys, ← hsnd, List.pairwise_map] at hfirst
    refine hfirst.imp fun hab => ?_
    rw [htime, htime] at hab
    exact hab
  unfold deduplicate
  rw [hpair.insertionSort_eq, hsnd, hkeys]

/-- The logical rows that a scan emits, from what it reads. -/
def emittedKeys (kind : RowKind R K) (rows : List (R × Path)) : List K :=
  if 2 ≤ (rows.map fun x => nodeOf x.2).dedup.length then
    firstSeen (rows.map fun x => kind.logicalKey x.1)
  else rows.map fun x => kind.logicalKey x.1

theorem emitRows_keys {keyTs : K → Int} (htime : KeyTime kind keyTs) {rows : List (ReadRow R)}
    (hsorted : (rows.map fun r => (r.row, r.path)).Pairwise (seenLe kind)) :
    (emitRows kind rows).map kind.logicalKey =
      emittedKeys kind (rows.map fun r => (r.row, r.path)) := by
  have hts : rows.Pairwise fun a b => kind.tsUtc a.row ≤ kind.tsUtc b.row := by
    refine (List.pairwise_map.mp hsorted).imp fun hab => ?_
    rcases Prod.Lex.le_iff.mp hab with hlt | ⟨heq, _⟩
    · exact le_of_lt hlt
    · exact le_of_eq heq
  simp only [emitRows, emittedKeys, List.map_map, Function.comp_def]
  split_ifs
  · exact List.map_map.trans (deduplicate_keys htime hts)
  · exact List.map_map

end

/-! ## the store of two nodes -/

theorem pathLe_total : ∀ p q : Path, pathLe p q = true ∨ pathLe q p = true
  | [], _ => Or.inl rfl
  | _ :: _, [] => Or.inr rfl
  | a :: p, b :: q => by
    unfold pathLe
    rcases lt_trichotomy a.toList b.toList with hlt | heq | hgt
    · simp [hlt]
    · obtain rfl := String.toList_inj.mp heq
      rcases pathLe_total p q with h | h <;> simp [h]
    · simp [hgt]

theorem pathLe_trans : ∀ p q r : Path, pathLe p q = true → pathLe q r = true →
    pathLe p r = true
  | [], _, _, _, _ => rfl
  | _ :: _, [], _, h, _ => nomatch h
  | _ :: _, _ :: _, [], _, h => nomatch h
  | a :: p, b :: q, c :: r, hab, hbc => by
    unfold pathLe at hab hbc ⊢
    simp only [Bool.or_eq_true, decide_eq_true_eq, Bool.and_eq_true, beq_iff_eq] at hab hbc ⊢
    rcases hab with hab | ⟨rfl, hpq⟩
    · rcases hbc with hbc | ⟨rfl, _⟩
      · exact Or.inl (lt_trans hab hbc)
      · exact Or.inl hab
    · rcases hbc with hbc | ⟨rfl, hqr⟩
      · exact Or.inl hbc
      · exact Or.inr ⟨rfl, pathLe_trans p q r hpq hqr⟩

instance : IsTrans Path fun p q => pathLe p q = true := ⟨pathLe_trans⟩

instance : Std.Total fun p q : Path => pathLe p q = true := ⟨pathLe_total⟩

theorem kunion_of_disjoint {l l' : List ((_ : Path) × Content W R)}
    (h : ∀ k ∈ l.keys, k ∉ l'.keys) : l.kunion l' = l ++ l' := by
  induction l with
  | nil => rfl
  | cons x l ih =>
    obtain ⟨hx, hl⟩ := List.forall_mem_cons.mp (List.keys_cons ▸ h)
    rw [List.kunion_cons, List.kerase_of_notMem_keys hx, ih hl, List.cons_append]

section

variable {A B : Files W R}

theorem keys_union (h : ∀ path ∈ A, path ∉ B) : (A ∪ B).keys = A.keys ++ B.keys := by
  show ((A ∪ B).entries).keys = _
  rw [AList.union_entries, kunion_of_disjoint fun k hk hk' =>
    h k (AList.mem_keys.mpr hk) (AList.mem_keys.mpr hk')]
  exact List.map_append

theorem filter_flatMap_const {α β : Type} {f : α → List β} (keep : α → Bool) {p : β → Bool}
    (h : ∀ a, ∀ b ∈ f a, p b = keep a) (l : List α) :
    (l.flatMap f).filter p = (l.filter keep).flatMap f := by
  induction l with
  | nil => rfl
  | cons a l ih =>
    rw [List.flatMap_cons, List.filter_append, ih]
    cases hkeep : keep a with
    | true =>
      rw [List.filter_cons_of_pos hkeep, List.flatMap_cons,
        List.filter_eq_self.mpr fun b hb => (h a b hb).trans hkeep]
    | false =>
      rw [List.filter_cons_of_neg (by simp [hkeep]), List.filter_eq_nil_iff.mpr fun b hb => by
        simp [h a b hb, hkeep], List.nil_append]

variable {env : Env R} {kind : RowKind R K} {dirOf : String → Except Exn Path} {a b : String}
  {start stop : Int}

/-- The files of a store that are kept are those of `part`. -/
structure Restricts (keep : Path → Bool) (files part : Files W R) : Prop where
  keys : files.keys.filter keep = part.keys
  lookup : ∀ path ∈ part, files.lookup path = part.lookup path

namespace Restricts

variable {files part : Files W R} {keep : Path → Bool}

variable (h : Restricts keep files part)
include h

/-- The rows of files that are kept are read as from the part alone. -/
theorem filter_storedBelow (dir : Path) :
    (storedBelow files dir).filter (fun x => keep x.2) = storedBelow part dir := by
  have hfiles : (parquetFiles files dir).filter keep = parquetFiles part dir := by
    unfold parquetFiles
    rw [filter_insertionSort, List.filter_filter, ← h.keys, List.filter_filter]
    simp only [Bool.and_comm]
  unfold storedBelow
  rw [filter_flatMap_const keep, hfiles]
  · refine List.flatMap_congr fun path hpath => ?_
    unfold rowsOf tableRows
    rw [h.lookup path (mem_of_mem_parquetFiles hpath)]
  · intro path x hx
    obtain ⟨row, _, rfl⟩ := List.mem_map.mp hx
    rfl

theorem filter_storedOn (dateStr : String) :
    (storedOn files dirOf dateStr).filter (fun x => keep x.2) = storedOn part dirOf dateStr := by
  unfold storedOn
  cases dirOf dateStr with
  | error e => rfl
  | ok dir => exact h.filter_storedBelow dir

theorem filter_scanned (clock : Option Int) :
    (scanned env kind files dirOf start stop clock).filter (fun x => keep x.2) =
      scanned env kind part dirOf start stop clock := by
  have hdates : ((dateRange env start stop).flatMap (storedOn files dirOf)).filter
      (fun x => keep x.2) = (dateRange env start stop).flatMap (storedOn part dirOf) := by
    rw [List.filter_flatMap]
    exact List.flatMap_congr fun dateStr _ => h.filter_storedOn dateStr
  unfold scanned seenRows
  rw [filter_insertionSort, ← hdates, List.filter_filter, List.filter_filter]
  simp only [Bool.and_comm]

end Restricts

/-- Two nodes that recorded one stream completely: without a clock, the scans of the one and
of the other give the same logical rows. -/
structure TwoNodes [DecidableEq K] (env : Env R) (kind : RowKind R K)
    (dirOf : String → Except Exn Path) (start stop : Int) (A B : Files W R) (a b : String) :
    Prop where
  first : NodeStore env kind dirOf start stop A a
  second : NodeStore env kind dirOf start stop B b
  distinct : a ≠ b
  same : (scanStream env kind A dirOf start stop none).map (List.map kind.logicalKey) =
    (scanStream env kind B dirOf start stop none).map (List.map kind.logicalKey)

/-- The row was recorded by node `a`. -/
def ofNode (a : String) (x : R × Path) : Bool := decide (nodeOf x.2 = a)

variable [DecidableEq K]

namespace TwoNodes

variable (h : TwoNodes env kind dirOf start stop A B a b)

include h

theorem disjoint : ∀ path ∈ A, path ∉ B := fun path hA hB =>
  h.distinct ((h.first.node path hA).symm.trans (h.second.node path hB))

theorem ofNode_keys : (∀ path ∈ A.keys, decide (nodeOf path = a) = true) ∧
    ∀ path ∈ B.keys, decide (nodeOf path = a) = false :=
  ⟨fun path hA => decide_eq_true (h.first.node path (AList.mem_keys.mpr hA)),
    fun path hB => decide_eq_false fun heq =>
      h.distinct (heq.symm.trans (h.second.node path (AList.mem_keys.mpr hB)))⟩

theorem restricts_first : Restricts (fun path => decide (nodeOf path = a)) (A ∪ B) A where
  keys := by
    rw [keys_union h.disjoint, List.filter_append, List.filter_eq_self.mpr h.ofNode_keys.1,
      List.filter_eq_nil_iff.mpr fun path hB => by simp [h.ofNode_keys.2 path hB],
      List.append_nil]
  lookup _ hA := AList.lookup_union_left hA

theorem restricts_second : Restricts (fun path => !decide (nodeOf path = a)) (A ∪ B) B where
  keys := by
    rw [keys_union h.disjoint, List.filter_append,
      List.filter_eq_nil_iff.mpr fun path hA => by simp [h.ofNode_keys.1 path hA],
      List.filter_eq_self.mpr fun path hB => by simp [h.ofNode_keys.2 path hB], List.nil_append]
  lookup path hB := AList.lookup_union_right fun hA => h.disjoint path hA hB

/-- The rows of each node are read as from its own store. -/
theorem filter_scanned (clock : Option Int) :
    (scanned env kind (A ∪ B) dirOf start stop clock).filter (ofNode a) =
        scanned env kind A dirOf start stop clock ∧
      (scanned env kind (A ∪ B) dirOf start stop clock).filter (fun x => !ofNode a x) =
        scanned env kind B dirOf start stop clock :=
  ⟨h.restricts_first.filter_scanned clock, h.restricts_second.filter_scanned clock⟩

/-- Both nodes together are a store as each of them is. -/
theorem datedStore : DatedStore env kind dirOf start stop (A ∪ B) where
  readable path hpath := by
    rcases AList.mem_union.mp hpath with hA | hB
    · rw [h.restricts_first.lookup path hA]
      exact h.first.readable path hA
    · rw [h.restricts_second.lookup path hB]
      exact h.second.readable path hB
  dated dateStr hdate x hx := by
    cases hnode : ofNode a x with
    | true =>
      refine h.first.dated dateStr hdate x ?_
      rw [← h.restricts_first.filter_storedOn dateStr]
      exact List.mem_filter.mpr ⟨hx, hnode⟩
    | false =>
      refine h.second.dated dateStr hdate x ?_
      rw [← h.restricts_second.filter_storedOn dateStr]
      exact List.mem_filter.mpr ⟨hx, congrArg not hnode⟩

end TwoNodes

end

/-! ## when two nodes read as one -/

section

variable [DecidableEq K] {env : Env R} {kind : RowKind R K} {keyTs : K → Int}
  {dirOf : String → Except Exn Path} {files A B : Files W R} {a b node : String}
  {start stop : Int} {clock : Option Int}

/-- Nothing of `B` is seen, or the rows of `A` that are seen have distinct logical keys, among
them those of all rows of `B` that are seen. -/
def OneSuffices (env : Env R) (kind : RowKind R K) (dirOf : String → Except Exn Path)
    (A B : Files W R) (start stop : Int) (clock : Option Int) : Prop :=
  seenRows env kind B dirOf start stop clock = [] ∨
    ((seenRows env kind A dirOf start stop clock).map fun x => kind.logicalKey x.1).Nodup ∧
      ∀ y ∈ seenRows env kind B dirOf start stop clock, kind.logicalKey y.1 ∈
        (seenRows env kind A dirOf start stop clock).map fun x => kind.logicalKey x.1

instance : Decidable (OneSuffices env kind dirOf A B start stop clock) :=
  inferInstanceAs (Decidable (_ ∨ _))

/-- The directories of a window have a name, or none has. -/
def DirsNamed (env : Env R) (dirOf : String → Except Exn Path) (start stop : Int) : Prop :=
  (∀ dateStr ∈ dateRange env start stop, ∃ dir, dirOf dateStr = .ok dir) ∨
    ∀ dateStr, dirOf dateStr = .error .valueError

omit [DecidableEq K] in
theorem scanned_pairwise : (scanned env kind files dirOf start stop clock).Pairwise (seenLe kind) :=
  List.pairwise_insertionSort _ _

/-- The logical rows of a scan. -/
theorem scanStream_keys (htime : KeyTime kind keyTs)
    (h : DatedStore env kind dirOf start stop files)
    (hdir : ∀ dateStr ∈ dateRange env start stop, ∃ dir, dirOf dateStr = .ok dir) :
    (scanStream env kind files dirOf start stop clock).map (List.map kind.logicalKey) =
      .ok (emittedKeys kind (scanned env kind files dirOf start stop clock)) := by
  obtain ⟨rows, hrows, hmap⟩ := scanRows_eq_ok h hdir clock
  have hsorted : (rows.map fun r => (r.row, r.path)).Pairwise (seenLe kind) :=
    hmap ▸ scanned_pairwise
  unfold scanStream
  rw [hrows, ← hmap, ← emitRows_keys htime hsorted]
  rfl

/-- Names that are refused raise, whatever the files are. -/
theorem scanStream_refused (hdir : ∀ dateStr, dirOf dateStr = .error .valueError)
    (A B : Files W R) :
    scanStream env kind A dirOf start stop clock =
      scanStream env kind B dirOf start stop clock := by
  have hdates : ∀ (files : Files W R) (dateStr : String), (do
      let dir ← dirOf dateStr
      let rows ← readParquetRows files dir
      pure (rows.filter fun r => inWindow kind start stop clock r.row) :
        Except Exn (List (ReadRow R))) = .error .valueError := by
    intro files dateStr
    rw [hdir dateStr]
    rfl
  unfold scanStream scanRows
  simp only [hdates]

omit [DecidableEq K] in
/-- What decides the scan, over the rows in their order. -/
theorem oneSuffices_iff : OneSuffices env kind dirOf A B start stop clock ↔
    scanned env kind B dirOf start stop clock = [] ∨
      ((scanned env kind A dirOf start stop clock).map fun x => kind.logicalKey x.1).Nodup ∧
        ∀ y ∈ scanned env kind B dirOf start stop clock, kind.logicalKey y.1 ∈
          (scanned env kind A dirOf start stop clock).map fun x => kind.logicalKey x.1 := by
  have hperm : ∀ files : Files W R, (scanned env kind files dirOf start stop clock).Perm
      (seenRows env kind files dirOf start stop clock) := fun _ => List.perm_insertionSort _ _
  have hkeys := (hperm A).map fun x => kind.logicalKey x.1
  unfold OneSuffices
  rw [hkeys.nodup_iff, ← List.length_eq_zero_iff, ← List.length_eq_zero_iff, (hperm B).length_eq]
  simp only [hkeys.mem_iff, (hperm B).mem_iff]

theorem two_le_length_dedup_iff {l : List String} :
    2 ≤ l.dedup.length ↔ ∃ a ∈ l, ∃ b ∈ l, a ≠ b := by
  rw [← List.card_toFinset]
  exact Finset.one_lt_card.trans (by simp only [List.mem_toFinset])

omit [DecidableEq K] in
theorem node_of_scanned (h : NodeStore env kind dirOf start stop files node) {x : R × Path}
    (hx : x ∈ scanned env kind files dirOf start stop clock) : nodeOf x.2 = node := by
  unfold scanned seenRows at hx
  rw [List.mem_insertionSort] at hx
  obtain ⟨dateStr, _, hx⟩ := List.mem_flatMap.mp (List.mem_of_mem_filter hx)
  unfold storedOn at hx
  split at hx
  · obtain ⟨path, hpath, hx⟩ := List.mem_flatMap.mp hx
    obtain ⟨row, _, rfl⟩ := List.mem_map.mp hx
    exact h.node path (mem_of_mem_parquetFiles hpath)
  · simp at hx

/-- One node's rows are emitted as they are. -/
theorem emittedKeys_of_node {rows : List (R × Path)} (h : ∀ x ∈ rows, nodeOf x.2 = node) :
    emittedKeys kind rows = rows.map fun x => kind.logicalKey x.1 := by
  refine if_neg fun htwo => ?_
  obtain ⟨_, hmem, _, hmem', hne⟩ := two_le_length_dedup_iff.mp htwo
  obtain ⟨x, hx, rfl⟩ := List.mem_map.mp hmem
  obtain ⟨y, hy, rfl⟩ := List.mem_map.mp hmem'
  exact hne ((h x hx).trans (h y hy).symm)

/-- What the clock has seen. -/
def receivedBy (kind : RowKind R K) (clock : Option Int) (x : R × Path) : Bool :=
  clock.all fun c => decide (kind.receivedAt x.1 ≤ c)

omit [DecidableEq K] in
theorem scanned_clock :
    scanned env kind files dirOf start stop clock =
      (scanned env kind files dirOf start stop none).filter (receivedBy kind clock) := by
  unfold scanned
  rw [filter_insertionSort]
  congr 1
  unfold seenRows
  rw [List.filter_filter]
  refine List.filter_congr fun x _ => ?_
  unfold inWindow receivedBy
  show _ = (_ && (_ && true))
  rw [Bool.and_true, Bool.and_comm]

/-- How the scan looks at its rows. -/
def recording (kind : RowKind R K) (keyTs : K → Int) : Recording (R × Path) K where
  key x := kind.logicalKey x.1
  time := keyTs
  received x := kind.receivedAt x.1

omit [DecidableEq K] in
theorem recording_le (htime : KeyTime kind keyTs) {x y : R × Path} (h : seenLe kind x y) :
    (recording kind keyTs).le x y := by
  show keyTs (kind.logicalKey x.1) < keyTs (kind.logicalKey y.1) ∨
    keyTs (kind.logicalKey x.1) = keyTs (kind.logicalKey y.1) ∧
      kind.receivedAt x.1 ≤ kind.receivedAt y.1
  rw [htime, htime]
  exact Prod.Lex.le_iff.mp h

variable (htime : KeyTime kind keyTs) (h : TwoNodes env kind dirOf start stop A B a b)
include htime h

/-- The scan of both nodes merges what the nodes recorded. -/
theorem TwoNodes.merged
    (hdir : ∀ dateStr ∈ dateRange env start stop, ∃ dir, dirOf dateStr = .ok dir)
    (clock : Option Int) :
    (recording kind keyTs).Merged (scanned env kind A dirOf start stop none)
      (scanned env kind B dirOf start stop none) (scanned env kind (A ∪ B) dirOf start stop clock)
      (ofNode a) (receivedBy kind clock) where
  same := by
    have hsame := h.same
    rw [scanStream_keys htime h.first.toDatedStore hdir,
      scanStream_keys htime h.second.toDatedStore hdir,
      emittedKeys_of_node fun x hx => node_of_scanned h.first hx,
      emittedKeys_of_node fun x hx => node_of_scanned h.second hx] at hsame
    exact Except.ok.inj hsame
  orderedA := scanned_pairwise.imp (recording_le htime)
  orderedB := scanned_pairwise.imp (recording_le htime)
  orderedSeen := scanned_pairwise.imp (recording_le htime)
  partA := (h.filter_scanned clock).1.trans scanned_clock
  partB := (h.filter_scanned clock).2.trans scanned_clock
  cutDown x y hle hy := by
    cases clock with
    | none => rfl
    | some c =>
      have hyc : kind.receivedAt y.1 ≤ c := of_decide_eq_true hy
      exact decide_eq_true (le_trans hle hyc)

/-- The scan of both nodes gives the logical rows of the first. -/
theorem TwoNodes.scanStream_iff (hdir : DirsNamed env dirOf start stop) (clock : Option Int) :
    (scanStream env kind (A ∪ B) dirOf start stop clock).map (List.map kind.logicalKey) =
        (scanStream env kind A dirOf start stop clock).map (List.map kind.logicalKey) ↔
      OneSuffices env kind dirOf A B start stop clock := by
  rcases hdir with hdir | hdir
  · obtain ⟨hpartA, hpartB⟩ := h.filter_scanned clock
    rw [scanStream_keys htime h.datedStore hdir, scanStream_keys htime h.first.toDatedStore hdir,
      emittedKeys_of_node fun x hx => node_of_scanned h.first hx, Except.ok.injEq, oneSuffices_iff]
    by_cases hB : scanned env kind B dirOf start stop clock = []
    · -- only the first node is seen
      have hall : scanned env kind (A ∪ B) dirOf start stop clock =
          scanned env kind A dirOf start stop clock := by
        rw [← hpartA, List.filter_eq_self.mpr fun x hx => ?_]
        simpa using List.filter_eq_nil_iff.mp (hpartB.trans hB) x hx
      rw [hall, emittedKeys_of_node fun x hx => node_of_scanned h.first hx]
      exact iff_of_true rfl (Or.inl hB)
    rw [or_iff_right hB]
    by_cases hA : scanned env kind A dirOf start stop clock = []
    · -- only the second node is seen
      have hall : scanned env kind (A ∪ B) dirOf start stop clock =
          scanned env kind B dirOf start stop clock := by
        rw [← hpartB, List.filter_eq_self.mpr fun x hx => ?_]
        simpa using List.filter_eq_nil_iff.mp (hpartA.trans hA) x hx
      rw [hall, emittedKeys_of_node fun x hx => node_of_scanned h.second hx, hA]
      refine iff_of_false (fun hkeys => hB (List.map_eq_nil_iff.mp hkeys)) fun hsub => ?_
      obtain ⟨y, hy⟩ := List.exists_mem_of_ne_nil _ hB
      exact absurd (hsub.2 y hy) List.not_mem_nil
    · -- both are seen
      have hmulti : 2 ≤ ((scanned env kind (A ∪ B) dirOf start stop clock).map
          fun x => nodeOf x.2).dedup.length := by
        obtain ⟨x, hx⟩ := List.exists_mem_of_ne_nil _ hA
        obtain ⟨y, hy⟩ := List.exists_mem_of_ne_nil _ hB
        have hx' : x ∈ scanned env kind (A ∪ B) dirOf start stop clock :=
          List.mem_of_mem_filter (hpartA.symm ▸ hx)
        have hy' : y ∈ scanned env kind (A ∪ B) dirOf start stop clock :=
          List.mem_of_mem_filter (hpartB.symm ▸ hy)
        exact two_le_length_dedup_iff.mpr
          ⟨a, List.mem_map.mpr ⟨x, hx', node_of_scanned h.first hx⟩,
            b, List.mem_map.mpr ⟨y, hy', node_of_scanned h.second hy⟩, h.distinct⟩
      have hmerge := (h.merged htime hdir clock).firstSeen_eq_iff
      rw [← scanned_clock, ← scanned_clock] at hmerge
      unfold emittedKeys
      rw [if_pos hmulti]
      exact hmerge
  · rw [scanStream_refused hdir]
    refine ⟨fun _ => Or.inl ?_, fun _ => rfl⟩
    unfold seenRows storedOn
    simp [hdir]

end

/-! ## books look at logical rows only -/

/-- An event without the time of its receipt and its text. -/
def logicalEvent (e : EventRow) : EventRow := { e with receivedAt := 0, rawJson := none }

theorem foldEvents_logical (q : ReplayQuery) (baselineTs : Int) (s : Replay)
    (events : List EventRow) :
    foldEvents q baselineTs s (events.map logicalEvent) = foldEvents q baselineTs s events := by
  induction events generalizing s with
  | nil => rfl
  | cons e rest ih =>
    have happly : applyEvent baselineTs s (logicalEvent e) = applyEvent baselineTs s e := rfl
    rw [List.map_cons]
    unfold foldEvents
    rw [happly, ih]
    rfl

theorem replayBook_logical (q : ReplayQuery) (d14 : Option (Int × Book)) (events : List EventRow) :
    replayBook q d14 (events.map logicalEvent) = replayBook q d14 events := by
  cases d14 with
  | some base =>
    have hdeltas : deltasAfter base.1 (events.map logicalEvent) =
        (deltasAfter base.1 events).map logicalEvent := List.dropWhile_map ..
    show foldEvents q base.1 _ (deltasAfter base.1 (events.map logicalEvent)) = _
    rw [hdeltas, foldEvents_logical]
    rfl
  | none =>
    have hfound : (events.map logicalEvent).dropWhile (fun e => decide (e.eventType ≠ .snapshot)) =
        (events.dropWhile fun e => decide (e.eventType ≠ .snapshot)).map logicalEvent :=
      List.dropWhile_map ..
    show replayFromEvents q (events.map logicalEvent) = replayFromEvents q events
    unfold replayFromEvents
    rw [List.isEmpty_map, hfound]
    cases events.dropWhile fun e => decide (e.eventType ≠ .snapshot) with
    | nil => rfl
    | cons first rest =>
      have hdrop : ((first :: rest).map logicalEvent).dropWhile (inBaseline first.tsUtc) =
          ((first :: rest).dropWhile (inBaseline first.tsUtc)).map logicalEvent :=
        List.dropWhile_map ..
      have htake : ((first :: rest).map logicalEvent).takeWhile (inBaseline first.tsUtc) =
          ((first :: rest).takeWhile (inBaseline first.tsUtc)).map logicalEvent :=
        List.takeWhile_map ..
      show (if events.isEmpty = true then _ else foldEvents q first.tsUtc
        ⟨(((first :: rest).map logicalEvent).takeWhile (inBaseline first.tsUtc)).foldl
          applyBaselineEvent {}, first.tsUtc⟩
        (((first :: rest).map logicalEvent).dropWhile (inBaseline first.tsUtc))) = _
      rw [hdrop, htake, foldEvents_logical, List.foldl_map]
      rfl

theorem map_logicalEvent_congr {events events' : List EventRow}
    (h : events.map eventKind.logicalKey = events'.map eventKind.logicalKey) :
    events.map logicalEvent = events'.map logicalEvent := by
  let ofKey : EventKey → EventRow := fun k =>
    ⟨k.tsUtc, 0, k.exchange, k.symbol, k.eventType, k.side, k.level, k.price, k.quantity, none⟩
  have hof : ∀ l : List EventRow, l.map logicalEvent = (l.map eventKind.logicalKey).map ofKey :=
    fun l => by
      rw [List.map_map]
      rfl
  rw [hof, hof, h]

/-- The same logical events give the same book. -/
theorem getOrderbookAt_congr {env : ReplayEnv} {snapshots : Files W SnapshotRow}
    {A B : Files W EventRow} {q : ReplayQuery}
    (h : (dayEvents env ⟨snapshots, A⟩ q).map (List.map eventKind.logicalKey) =
      (dayEvents env ⟨snapshots, B⟩ q).map (List.map eventKind.logicalKey)) :
    getOrderbookAt env ⟨snapshots, A⟩ q = getOrderbookAt env ⟨snapshots, B⟩ q := by
  unfold getOrderbookAt
  have hbase : loadBaselineFromD14 env ⟨snapshots, A⟩ q =
      loadBaselineFromD14 env ⟨snapshots, B⟩ q :=
    rfl
  rcases except_map_eq h with ⟨e, hA, hB⟩ | ⟨events, events', hA, hB, heq⟩
  · rw [hA, hB]
  · have hreplay : replayBook q (loadBaselineFromD14 env ⟨snapshots, A⟩ q) events =
        replayBook q (loadBaselineFromD14 env ⟨snapshots, B⟩ q) events' := by
      rw [← replayBook_logical, map_logicalEvent_congr heq, replayBook_logical, hbase]
    simp only [hA, hB, hreplay]

/-! ## ticks, events and books -/

theorem tickKind_keyTime : KeyTime tickKind TickKey.tsUtc := fun _ => rfl

theorem eventKind_keyTime : KeyTime eventKind EventKey.tsUtc := fun _ => rfl

theorem dirsNamed_partitionDir {env : Env R}
    (hdates : ∀ day, safePathComponent (env.isoformat day) = true)
    (tree schemaVer exchange symbol : String) (start stop : Int) :
    DirsNamed env (partitionDir tree schemaVer exchange symbol) start stop := by
  unfold DirsNamed partitionDir
  cases hnames : safePathComponent exchange && safePathComponent symbol with
  | false => exact Or.inr fun dateStr => rfl
  | true =>
    refine Or.inl fun dateStr hdate => ?_
    obtain ⟨i, _, rfl⟩ := List.mem_map.mp hdate
    rw [hdates]
    exact ⟨_, rfl⟩

/-- Scans of what two nodes recorded give the logical rows of one node alone when one
suffices, and then `get_orderbook_at` gives the same book. -/
theorem activeActive_transparent_iff (envT : Env TickRow) (env : ReplayEnv)
    (hdatesT : ∀ day, safePathComponent (envT.isoformat day) = true)
    (hdates : ∀ day, safePathComponent (env.events.isoformat day) = true)
    (exchange symbol a b : String) (start stop : Int) (clock : Option Int)
    {ticksA ticksB : Files W TickRow} {eventsA eventsB : Files W EventRow}
    (hticks : TwoNodes envT tickKind (tickPartitionDir exchange symbol) start stop ticksA ticksB
      a b)
    (hevents : TwoNodes env.events eventKind (orderbookPartitionDir exchange symbol) start stop
      eventsA eventsB a b)
    (q : ReplayQuery) (snapshots : Files W SnapshotRow)
    (hday : TwoNodes env.events eventKind (orderbookPartitionDir q.exchange q.symbol)
      (dayStart q.tsUtc) (dayEnd q.tsUtc) eventsA eventsB a b) :
    ((scanTicks envT (ticksA ∪ ticksB) exchange symbol start stop clock).map
        (List.map tickKind.logicalKey) =
      (scanTicks envT ticksA exchange symbol start stop clock).map
        (List.map tickKind.logicalKey) ↔
      OneSuffices envT tickKind (tickPartitionDir exchange symbol) ticksA ticksB start stop
        clock) ∧
    ((scanOrderbookEvents env.events (eventsA ∪ eventsB) exchange symbol start stop clock).map
        (List.map eventKind.logicalKey) =
      (scanOrderbookEvents env.events eventsA exchange symbol start stop clock).map
        (List.map eventKind.logicalKey) ↔
      OneSuffices env.events eventKind (orderbookPartitionDir exchange symbol) eventsA eventsB
        start stop clock) ∧
    ((dayEvents env ⟨snapshots, eventsA ∪ eventsB⟩ q).map (List.map eventKind.logicalKey) =
        (dayEvents env ⟨snapshots, eventsA⟩ q).map (List.map eventKind.logicalKey) ∧
      getOrderbookAt env ⟨snapshots, eventsA ∪ eventsB⟩ q =
        getOrderbookAt env ⟨snapshots, eventsA⟩ q ↔
      OneSuffices env.events eventKind (orderbookPartitionDir q.exchange q.symbol) eventsA eventsB
        (dayStart q.tsUtc) (dayEnd q.tsUtc) q.simulatedClock) := by
  refine ⟨hticks.scanStream_iff tickKind_keyTime (dirsNamed_partitionDir hdatesT ..) clock,
    hevents.scanStream_iff eventKind_keyTime (dirsNamed_partitionDir hdates ..) clock, ?_⟩
  have hscan := hday.scanStream_iff eventKind_keyTime (dirsNamed_partitionDir hdates ..)
    q.simulatedClock
  constructor
  · intro ⟨hsame, _⟩
    exact hscan.mp hsame
  · intro hone
    have hsame := hscan.mpr hone
    exact ⟨hsame, getOrderbookAt_congr hsame⟩

/-- A file of node `node` of day `0`. -/
def nodeFile {R : Type} (tree schemaVer node : String) (rows : List R) : Files Unit R :=
  (∅ : Files Unit R).insert ["market", tree, "schema_version=" ++ schemaVer, "exchange=upbit",
    "symbol=KRW-BTC", "date=D", "node=" ++ node, "a.parquet"] (.parquet ⟨"", [rows], true⟩)

theorem nodeFile_store {env : Env R} {kind : RowKind R K} {dirOf : String → Except Exn Path}
    {start stop : Int} {tree schemaVer node : String} {rows : List R}
    (hnode : nodeOf ["market", tree, "schema_version=" ++ schemaVer, "exchange=upbit",
      "symbol=KRW-BTC", "date=D", "node=" ++ node, "a.parquet"] = node)
    (hdated : ∀ dateStr ∈ dateRange env start stop,
      ∀ x ∈ storedOn (nodeFile tree schemaVer node rows) dirOf dateStr,
        dateStr = env.isoformat (dayOf (kind.tsUtc x.1))) :
    NodeStore env kind dirOf start stop (nodeFile tree schemaVer node rows) node where
  readable path hpath := by
    obtain rfl := List.mem_singleton.mp hpath
    exact ⟨_, AList.lookup_insert _⟩
  dated := hdated
  node path hpath := by
    obtain rfl := List.mem_singleton.mp hpath
    exact hnode

def trade (receivedAt : Int) (price : ℚ) : TickRow :=
  ⟨10, receivedAt, "upbit", "KRW-BTC", price, 1, "buy", none⟩

def quote (receivedAt : Int) (eventType : EventType) (quantity : ℚ) : EventRow :=
  ⟨10, receivedAt, "upbit", "KRW-BTC", eventType, .bid, 0, 100, quantity, none⟩

def ticksOf (node : String) (rows : List TickRow) : Files Unit TickRow :=
  nodeFile "ticks" "tick.v1" node rows

def eventsOf (node : String) (rows : List EventRow) : Files Unit EventRow :=
  nodeFile "orderbook" "orderbook.v1" node rows

/-- Two trades, received at different times. -/
def twoTrades (node : String) (received : Int) : Files Unit TickRow :=
  ticksOf node [trade received 1, trade (received + 1) 2]

/-- A snapshot and one delta. -/
def oneUpdate (node : String) (received : Int) : Files Unit EventRow :=
  eventsOf node [quote received .snapshot 1, quote (received + 1) .delta 5]

/-- Distinct rows, seen at both nodes, are read once. -/
theorem distinct_rows_read_once :
    (scanTicks (markEnv TickRow) (twoTrades "A" 11 ∪ twoTrades "B" 21) "upbit" "KRW-BTC" 0 100
        none).map (List.map tickKind.logicalKey) =
      (scanTicks (markEnv TickRow) (twoTrades "A" 11) "upbit" "KRW-BTC" 0 100 none).map
        (List.map tickKind.logicalKey) ∧
    getOrderbookAt markReplay ⟨∅, oneUpdate "A" 11 ∪ oneUpdate "B" 21⟩ (bookAt 50) =
      getOrderbookAt markReplay ⟨∅, oneUpdate "A" 11⟩ (bookAt 50) := by
  have h := activeActive_transparent_iff (markEnv TickRow) markReplay (markEnv_safe TickRow)
    (markEnv_safe EventRow) "upbit" "KRW-BTC" "A" "B" 0 100 none
    (show TwoNodes _ _ _ _ _ (twoTrades "A" 11) (twoTrades "B" 21) _ _ from
      ⟨nodeFile_store (by decide +kernel) (by decide +kernel),
        nodeFile_store (by decide +kernel) (by decide +kernel), by decide, by decide +kernel⟩)
    (show TwoNodes _ _ _ _ _ (oneUpdate "A" 11) (oneUpdate "B" 21) _ _ from
      ⟨nodeFile_store (by decide +kernel) (by decide +kernel),
        nodeFile_store (by decide +kernel) (by decide +kernel), by decide, by decide +kernel⟩)
    (bookAt 50) ∅
    ⟨nodeFile_store (by decide +kernel) (by decide +kernel),
      nodeFile_store (by decide +kernel) (by decide +kernel), by decide, by decide +kernel⟩
  exact ⟨h.1.mpr (by decide +kernel), (h.2.2.mpr (by decide +kernel)).2⟩

/-- One trade that occurs twice. -/
def sameTrades (node : String) (received : Int) : Files Unit TickRow :=
  ticksOf node [trade received 1, trade (received + 1) 1]

/-- A quantity that goes from `5` to `7` and back, at one time. -/
def thereAndBack (node : String) (received : Int) : Files Unit EventRow :=
  eventsOf node [quote received .snapshot 1, quote (received + 1) .delta 5,
    quote (received + 2) .delta 7, quote (received + 3) .delta 5]

/-- Of two equal trades the scan of both nodes has one, and the last update is dropped as a
copy of the first. -/
theorem equal_rows_read_as_one :
    TwoNodes (markEnv TickRow) tickKind (tickPartitionDir "upbit" "KRW-BTC") 0 100
      (sameTrades "A" 11) (sameTrades "B" 21) "A" "B" ∧
    (scanTicks (markEnv TickRow) (sameTrades "A" 11) "upbit" "KRW-BTC" 0 100 none).map
      List.length = .ok 2 ∧
    (scanTicks (markEnv TickRow) (sameTrades "A" 11 ∪ sameTrades "B" 21) "upbit" "KRW-BTC" 0 100
      none).map List.length = .ok 1 ∧
    getOrderbookAt markReplay ⟨∅, thereAndBack "A" 11⟩ (bookAt 50) =
      .ok ⟨"KRW-BTC", 50, [⟨100, 5⟩], []⟩ ∧
    getOrderbookAt markReplay ⟨∅, thereAndBack "A" 11 ∪ thereAndBack "B" 21⟩ (bookAt 50) =
      .ok ⟨"KRW-BTC", 50, [⟨100, 7⟩], []⟩ :=
  ⟨⟨nodeFile_store (by decide +kernel) (by decide +kernel),
      nodeFile_store (by decide +kernel) (by decide +kernel), by decide, by decide +kernel⟩,
    by decide +kernel, by decide +kernel, by decide +kernel, by decide +kernel⟩

/-! ## snapshots are not deduplicated -/

/-- What names a row of a snapshot. -/
def snapshotTuple (r : SnapshotRow) : String × String × Int × Side × Int × String :=
  (r.exchange, r.symbol, r.baselineSeq, r.side, r.level, r.payloadHash)

/-- The directory of the dates of a stream. -/
def snapshotRoot (exchange symbol : String) : Path := (snapshotDir exchange symbol "").dropLast

section

variable (env : Env SnapshotRow) (files : Files W SnapshotRow) (exchange symbol : String)
  (start stop : Int) (clock : Option Int)

/-- The visible rows below the directories of the window. -/
def seenSnapshots : List SnapshotRow :=
  (dateRange env start stop).flatMap fun dateStr =>
    (readableRows files (snapshotDir exchange symbol dateStr)).filter
      (inWindow snapshotKind start stop clock)

/-- A scan has each visible tuple of the stream once, in order. -/
def ScansOnce : Prop :=
  let rows := scanOrderbookSnapshots env files exchange symbol start stop clock
  (rows.map snapshotTuple).Nodup ∧ rows.Pairwise (fun a b => snapshotKey a ≤ snapshotKey b) ∧
    ∀ r ∈ readableRows files (snapshotRoot exchange symbol),
      inWindow snapshotKind start stop clock r = true → snapshotTuple r ∈ rows.map snapshotTuple

/-- Every visible tuple of the stream is in a visible row below a date of the window. -/
def Reached : Prop :=
  ∀ r ∈ readableRows files (snapshotRoot exchange symbol),
    inWindow snapshotKind start stop clock r = true →
    ∃ dateStr ∈ dateRange env start stop,
      ∃ r' ∈ readableRows files (snapshotDir exchange symbol dateStr),
        inWindow snapshotKind start stop clock r' = true ∧ snapshotTuple r' = snapshotTuple r

/-- Every visible row lies below the directory of its own date. -/
def Dated : Prop :=
  ∀ path ∈ parquetFiles files (snapshotRoot exchange symbol), ∀ r ∈ rowsOf files path,
    inWindow snapshotKind start stop clock r = true →
    snapshotDir exchange symbol (env.isoformat (dayOf r.tsUtc)) <+: path.dropLast

variable {env files exchange symbol start stop clock}

theorem Dated.reached (h : Dated env files exchange symbol start stop clock) :
    Reached env files exchange symbol start stop clock := by
  intro r hr hvisible
  obtain ⟨path, hpath, hrow⟩ := List.mem_flatMap.mp hr
  have hwindow : start ≤ r.tsUtc ∧ r.tsUtc < stop := by
    simp only [inWindow, Bool.and_eq_true, decide_eq_true_eq] at hvisible
    exact hvisible.1
  -- its date is one of the window, and its file is below that date
  have hdate := (isoformat_mem_dateRange env).mpr
    ⟨dayOf_mono hwindow.1, dayOf_mono hwindow.2.le⟩
  have hfile : path ∈ parquetFiles files
      (snapshotDir exchange symbol (env.isoformat (dayOf r.tsUtc))) := by
    have hname := mem_parquetFiles.mp hpath
    simp only [Bool.and_eq_true, List.isPrefixOf_iff_prefix] at hname
    exact mem_parquetFiles.mpr
      ⟨hname.1, by simpa [h path hpath r hrow hvisible] using hname.2.2⟩
  exact ⟨_, hdate, r, List.mem_flatMap.mpr ⟨path, hfile, hrow⟩, hvisible, rfl⟩

/-- A scan has each visible tuple once exactly when no tuple is there twice below the dates of
the window and none is only elsewhere, as it is where each visible row lies below its date. -/
theorem scansOnce_iff (env : Env SnapshotRow) (files : Files W SnapshotRow)
    (exchange symbol : String) (start stop : Int) (clock : Option Int) :
    (ScansOnce env files exchange symbol start stop clock ↔
      ((seenSnapshots env files exchange symbol start stop clock).map snapshotTuple).Nodup ∧
        Reached env files exchange symbol start stop clock) ∧
    (Dated env files exchange symbol start stop clock →
      Reached env files exchange symbol start stop clock) := by
  have hperm : (scanOrderbookSnapshots env files exchange symbol start stop clock).Perm
      (seenSnapshots env files exchange symbol start stop clock) := List.perm_insertionSort ..
  have hsorted := List.pairwise_insertionSort (fun a b => snapshotKey a ≤ snapshotKey b)
    (seenSnapshots env files exchange symbol start stop clock)
  have hmem : ∀ tuple, tuple ∈ (seenSnapshots env files exchange symbol start stop clock).map
      snapshotTuple ↔ ∃ dateStr ∈ dateRange env start stop,
        ∃ r ∈ readableRows files (snapshotDir exchange symbol dateStr),
          inWindow snapshotKind start stop clock r = true ∧ snapshotTuple r = tuple := by
    intro tuple
    simp only [seenSnapshots, List.mem_map, List.mem_flatMap, List.mem_filter]
    tauto
  refine ⟨?_, Dated.reached⟩
  unfold ScansOnce Reached
  simp only [(hperm.map snapshotTuple).nodup_iff, (hperm.map snapshotTuple).mem_iff, hmem]
  exact and_congr_right fun _ => and_iff_right hsorted

end

def snapshotsOf (node : String) : Files Unit SnapshotRow :=
  nodeFile "orderbook_snapshot" "orderbook_snapshot.v1" node
    [⟨10, 11, "upbit", "KRW-BTC", 1, .bid, 0, 100, 1, "h", none⟩]

/-- Two nodes recorded one snapshot: the scan has it twice. -/
theorem snapshot_read_twice :
    ¬ScansOnce (markEnv SnapshotRow) (snapshotsOf "A" ∪ snapshotsOf "B") "upbit" "KRW-BTC" 0 100
      none := fun h =>
  absurd h.1 (by decide +kernel)

end MctraderData.Read
