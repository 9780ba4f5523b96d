import MctraderData.Lib.Raising
import MctraderData.Read.Scan
import MctraderData.Wal.NoLoss

/-!
# mctrader-data — reading back what was collected

The collector writes trades and orderbook snapshots to the WAL (`_emit_to_wal`), and the L1
compactor turns the sealed segments into parquet files below `market/<channel>/`. The scans
walk other directories: `market/ticks/` for the channel `transaction`, and
`market/orderbook_snapshot/` for `orderbooksnapshot`.

## Results

* `collected_readable_iff` — when a scan returns the collected rows of its window.
-/

namespace MctraderData.Read

open Lib Eff
open Nas
open Wal
open Compactor

/-! ## events and records -/

/-- An event of kind `transaction`; `raw` is the text of a payload that is not empty. -/
structure TransactionEvent where
  eventTime : Int
  receivedAt : Int
  price : ℚ
  quantity : ℚ
  side : String
  raw : Option String
deriving DecidableEq

structure BookLevel where
  price : ℚ
  quantity : ℚ
deriving DecidableEq

/-- An event of kind `orderbook_snapshot` -/
structure SnapshotEvent where
  eventTime : Int
  receivedAt : Int
  bids : List BookLevel
  asks : List BookLevel
  raw : Option String
deriving DecidableEq

/-- The WAL record of a trade. -/
structure TransactionRecord where
  tsUtc : Int
  receivedAt : Int
  exchange : String
  symbol : String
  price : ℚ
  quantity : ℚ
  side : String
  rawJson : Option String
deriving DecidableEq

/-- The WAL record of a snapshot. -/
structure SnapshotRecord where
  tsUtc : Int
  receivedAt : Int
  exchange : String
  symbol : String
  bids : List BookLevel
  asks : List BookLevel
  rawJson : Option String
deriving DecidableEq

/-- `_emit_to_wal` of a trade. -/
def transactionRecord (exchange symbol : String) (event : TransactionEvent) : TransactionRecord :=
  ⟨event.eventTime, event.receivedAt, exchange, symbol, event.price, event.quantity, event.side,
    event.raw⟩

/-- `_emit_to_wal` of a snapshot. -/
def snapshotRecord (exchange symbol : String) (event : SnapshotEvent) : SnapshotRecord :=
  ⟨event.eventTime, event.receivedAt, exchange, symbol, event.bids, event.asks, event.raw⟩

/-! ## the converters -/

/-- What the converters take from outside: the validation of `TickRecord`, the hash of a
snapshot's canonical body, and `int(ts.timestamp() * 1_000_000)` in floating point. -/
structure RecordLib where
  acceptsTick : TickRow → Bool
  payloadHash : (exchange symbol : String) → Int → (bids asks : List BookLevel) → String
  baselineSeq : Int → Int

/-- A value of `decimal128(38, 18)`; `pyarrow` raises for digits that do not fit. -/
def decimal128 (value : ℚ) : Except Exn ℚ :=
  if (value * 10 ^ 18).den = 1 ∧ -10 ^ 38 < value * 10 ^ 18 ∧ value * 10 ^ 18 < 10 ^ 38 then
    .ok value
  else .error .arrowInvalid

/-- `_tick_dicts_to_arrow`, one record. -/
def tickRows (lib : RecordLib) (r : TransactionRecord) : Except Exn (List TickRow) := do
  let price ← decimal128 r.price
  let quantity ← decimal128 r.quantity
  let row : TickRow :=
    ⟨r.tsUtc, r.receivedAt, r.exchange, r.symbol, price, quantity, r.side, r.rawJson⟩
  if lib.acceptsTick row then .ok [row] else .error .valueError

/-- The rows of one side of a snapshot, from the given level on. -/
def levelRows (lib : RecordLib) (r : SnapshotRecord) (side : Side) :
    Nat → List BookLevel → Except Exn (List SnapshotRow)
  | _, [] => .ok []
  | level, l :: rest => do
    let price ← decimal128 l.price
    let quantity ← decimal128 l.quantity
    let seq := lib.baselineSeq r.tsUtc
    let more ← levelRows lib r side (level + 1) rest
    pure (⟨r.tsUtc, r.receivedAt, r.exchange, r.symbol, seq, side, level, price, quantity,
      lib.payloadHash r.exchange r.symbol seq r.bids r.asks, r.rawJson⟩ :: more)

/-- `_ob_snapshot_dicts_to_arrow`, one record: the bids, then the asks. -/
def snapshotRows (lib : RecordLib) (r : SnapshotRecord) : Except Exn (List SnapshotRow) := do
  let bids ← levelRows lib r .bid 0 r.bids
  let asks ← levelRows lib r .ask 0 r.asks
  pure (bids ++ asks)

def tickCodec (lib : RecordLib) : Codec TransactionRecord TickRow where
  rowsOf _ _ _ _ r := tickRows lib r
  arrowSchema _ := "tick.v1"
  lineage path := path.getLastD ""

def snapshotCodec (lib : RecordLib) : Codec SnapshotRecord SnapshotRow where
  rowsOf _ _ _ _ r := snapshotRows lib r
  arrowSchema _ := "orderbook_snapshot.v1"
  lineage path := path.getLastD ""

/-! ## where the files of a stream are -/

/-- A path strictly below a directory. -/
def Below (dir path : Path) : Prop := ∃ rest, rest ≠ [] ∧ path = dir ++ rest

def walDir (feed : Feed) : Path := ["wal", feed.exchange, feed.channel]

def marketDir (feed : Feed) : Path := ["market", feed.channel]

/-- A path in the WAL tree of the stream, or in the L1 tree of its channel. -/
def InTree (feed : Feed) (path : Path) : Prop :=
  Below (walDir feed) path ∨ Below (marketDir feed) path

variable {path : Path}

theorem Below.withSuffix {dir : Path} (h : Below dir path) (suffix : String) :
    Below dir (withSuffix path suffix) := by
  obtain ⟨rest, hrest, rfl⟩ := h
  refine ⟨rest.dropLast ++ [rest.getLastD "" ++ suffix], by simp, ?_⟩
  rcases List.eq_nil_or_concat rest with rfl | ⟨init, last, rfl⟩
  · exact absurd rfl hrest
  · rw [Wal.withSuffix, List.concat_eq_append, ← List.append_assoc, List.dropLast_concat,
      List.getLastD_concat, List.dropLast_concat, List.getLastD_concat, List.append_assoc]

theorem inTree_withSuffix {feed : Feed} (h : InTree feed path) (suffix : String) :
    InTree feed (withSuffix path suffix) :=
  h.imp (·.withSuffix suffix) (·.withSuffix suffix)

/-- Every file is in the trees of the stream. -/
def FilesInTree {W R : Type} (feed : Feed) (files : Files W R) : Prop :=
  ∀ path, (files.lookup path).isSome → InTree feed path

section

variable {W R : Type} {feed : Feed} {files : Files W R}

theorem FilesInTree.insert (h : FilesInTree feed files) (hpath : InTree feed path)
    (c : Content W R) : FilesInTree feed (files.insert path c) := by
  intro path' hsome
  rcases eq_or_ne path' path with rfl | hne
  · exact hpath
  · exact h path' (by simpa [hne] using hsome)

theorem FilesInTree.erase (h : FilesInTree feed files) (path : Path) :
    FilesInTree feed (files.erase path) := by
  intro path' hsome
  rcases eq_or_ne path' path with rfl | hne
  · simp at hsome
  · exact h path' (by simpa [hne] using hsome)

variable [Blob (Content W R)] {cfg : Config}

/-- The relation between the disk before and after that every operation keeps. -/
def StaysInTree (feed : Feed) (w w' : World (Content W R)) : Prop :=
  FilesInTree feed w.files → FilesInTree feed w'.files

instance : Std.Refl (StaysInTree feed : World (Content W R) → World (Content W R) → Prop) :=
  ⟨fun _ h => h⟩

instance : IsTrans (World (Content W R)) (StaysInTree feed) := ⟨fun _ _ _ h h' hw => h' (h hw)⟩

/-- The same for an operation of the ingester. -/
def WriterStays (feed : Feed) (s s' : Wal.Writer W R) : Prop := StaysInTree feed s.world s'.world

instance : Std.Refl (WriterStays feed : Wal.Writer W R → Wal.Writer W R → Prop) := ⟨fun _ h => h⟩

instance : IsTrans (Wal.Writer W R) (WriterStays feed) := ⟨fun _ _ _ h h' hw => h' (h hw)⟩

abbrev WriterKeeps {α : Type} (feed : Feed) (m : Method W R α) : Prop :=
  Eff.Keeps (WriterStays feed) m

theorem keeps_modifyIngester (f : Ingester → Ingester) :
    WriterKeeps feed (modifyIngester f : Method W R Unit) :=
  keeps_modify fun _ h => h

theorem keeps_openAppend (h : InTree feed path) :
    WriterKeeps feed (openAppend path : Method W R Unit) := by
  refine keeps_get.bind fun s => ?_
  split
  · exact keeps_pure ()
  · exact keeps_modify fun _ hs => hs.insert h _

theorem keeps_of_wp {α : Type} {m : Method W R α} (h : ∀ s, FilesInTree feed s.world.files →
    wp m (fun _ s' => FilesInTree feed s'.world.files) s) : WriterKeeps feed m := h

/-- A record goes to a file that is there. -/
theorem keeps_writeRecord (path : Path) (record : W) :
    WriterKeeps feed (writeRecord path record : Method W R Unit) := by
  refine keeps_of_wp fun s hs => ?_
  simp only [writeRecord, wp_bind, wp_get]
  cases hc : s.world.files.lookup path with
  | none => exact hs
  | some c =>
    have hpath := hs path (by rw [hc]; rfl)
    cases c with
    | ndjson records => exact hs.insert hpath _
    | _ => exact hs

/-- A segment is sealed beside itself. -/
theorem keeps_replaceFile (path : Path) :
    WriterKeeps feed (replaceFile path (sealPath path) : Method W R Unit) := by
  refine keeps_of_wp fun s hs => ?_
  simp only [replaceFile, wp_bind, wp_get]
  cases hc : s.world.files.lookup path with
  | none => exact hs
  | some c =>
    have hpath := hs path (by rw [hc]; rfl)
    exact (hs.erase path).insert (inTree_withSuffix hpath ".sealed") c

theorem keeps_assertSome {α : Type} (o : Option α) :
    WriterKeeps feed (assertSome o : Method W R α) := by
  cases o with
  | none => exact keeps_throw _
  | some a => exact keeps_pure a

theorem inTree_active (ts : Nat) : InTree feed (activeSegmentPath feed ts) :=
  Or.inl ⟨[feed.symbol, _, _], by simp, rfl⟩

theorem keeps_openNewSegment (idx mono : Nat) :
    WriterKeeps feed (openNewSegment cfg feed idx mono : Method W R Unit) :=
  (keeps_modifyIngester _).bind fun _ => (keeps_openAppend (inTree_active _)).bind fun _ =>
    keeps_modifyIngester _

theorem keeps_sealCurrent : WriterKeeps feed (sealCurrent : Method W R Unit) :=
  keeps_get.bind fun _ => (keeps_assertSome _).bind fun _ =>
    (keeps_modifyIngester _).bind fun _ => (keeps_assertSome _).bind fun _ =>
      (keeps_replaceFile _).bind fun _ => keeps_modifyIngester _

theorem keeps_countWrite (mono : Nat) :
    WriterKeeps feed (countWrite cfg mono : Method W R Unit) := by
  refine (keeps_modifyIngester _).bind fun _ => keeps_get.bind fun s => ?_
  split
  · exact keeps_modifyIngester _
  · exact keeps_pure ()
  · exact keeps_throw _

theorem keeps_append (now mono : Nat) (record : W) :
    WriterKeeps feed (append cfg feed now mono record : Method W R Unit) := by
  have hseal : WriterKeeps feed (maybeSeal cfg feed now mono : Method W R Unit) := by
    refine keeps_get.bind fun s => ?_
    split
    · exact keeps_sealCurrent.bind fun _ => keeps_openNewSegment _ mono
    · exact keeps_pure ()
  have hwrite : WriterKeeps feed (writeLine cfg mono record : Method W R Unit) := by
    refine keeps_get.bind fun s => ?_
    split
    · exact keeps_throw _
    · exact (keeps_assertSome _).bind fun _ => (keeps_writeRecord _ record).bind fun _ =>
        keeps_countWrite mono
  refine keeps_get.bind fun s => ?_
  split
  · exact keeps_throw _
  · exact hseal.bind fun _ => hwrite

theorem keeps_close : WriterKeeps feed (close : Method W R Unit) := by
  have hseal : ∀ path, WriterKeeps feed (sealIfExists path : Method W R Unit) := by
    intro path
    cases path with
    | none => exact keeps_pure ()
    | some path =>
      refine keeps_get.bind fun s => ?_
      split
      · exact (keeps_replaceFile path).bind fun _ => keeps_modifyIngester _
      · exact keeps_pure ()
  refine keeps_get.bind fun s => ?_
  split
  · exact keeps_pure ()
  · exact (keeps_modifyIngester _).bind fun _ => (hseal _).bind fun _ => keeps_modifyIngester _

theorem keeps_flush (mono : Nat) : WriterKeeps feed (flush mono : Method W R Unit) := by
  refine keeps_get.bind fun s => ?_
  split
  · exact keeps_pure ()
  · split
    · exact keeps_modifyIngester _
    · exact keeps_pure ()

variable {env : Env R}

/-- The L1 file of a segment of the stream, and its lineage file. -/
theorem below_l1Target {sealedPath : Path} {target : L1Target}
    (hpath : Below (walDir feed) sealedPath) (h : l1Target env sealedPath = .ok target)
    (file : String) : Below (marketDir feed) (target.dir ++ [file]) := by
  obtain ⟨rest, -, rfl⟩ := hpath
  obtain ⟨m, ts, v, hm, -, -, rfl⟩ := l1Target_ok h
  have hchannel : m.channel = feed.channel := by
    match rest, hm with
    | symbol :: date :: more, hm =>
      simp only [walDir, List.cons_append, List.nil_append, parseSegmentMeta] at hm
      split at hm
      · cases hm
      · cases hm
        rfl
  refine ⟨["schema_version=" ++ v, "tier=" ++ "L1", "exchange=" ++ m.exchange,
    "symbol=" ++ m.symbol, "date=" ++ m.date, "node=" ++ m.nodeId, file], List.cons_ne_nil _ _, ?_⟩
  rw [marketDir, ← hchannel]
  rfl

/-- What the compactor keeps besides the files: it works on segments of the stream. -/
structure Tidy (feed : Feed) (s : Sys W R) : Prop where
  files : FilesInTree feed s.world.files
  pending : ∀ path ∈ s.pending, Below (walDir feed) path
  job : ∀ stage job, s.job = some (stage, job) → Below (walDir feed) job.sealedPath ∧
    ∀ file, Below (marketDir feed) (job.target.dir ++ [file])

/-- A sealed segment of the scan is a WAL file. -/
theorem below_of_scanSealed {w : World (Content W R)} (h : FilesInTree feed w.files)
    (hmem : path ∈ scanSealed w) : Below (walDir feed) path := by
  have hglob : path ∈ rglobWal w ".ndjson.sealed" :=
    (List.mem_insertionSort (pathLe · ·)).mp (List.mem_of_mem_filter hmem)
  rw [rglobWal, List.mem_filter, ← AList.mem_keys, ← AList.lookup_isSome] at hglob
  simp only [Bool.and_eq_true, beq_iff_eq] at hglob
  rcases h path hglob.1 with hwal | ⟨rest, -, rfl⟩
  · exact hwal
  · exact absurd hglob.2.1.1 (by simp [marketDir])

theorem keeps_unlink (path : Path) :
    Eff.Keeps (StaysInTree feed) (unlink path : Prog (Content W R) Unit) := by
  intro w hw
  refine (?_ : wp (unlink path) (fun _ w' => FilesInTree feed w'.files) w)
  simp only [unlink, wp_bind, wp_get, wp_set]
  iterate 2
    split
    · exact hw
  exact hw.erase path

theorem keeps_gcOne (marker : Path) :
    Eff.Keeps (StaysInTree feed) (gcOne marker : Prog (Content W R) Unit) := by
  refine Eff.Keeps.tryCatch (Eff.Keeps.bind ?_ fun _ => keeps_unlink marker)
    fun _ => keeps_pure ()
  refine keeps_get.bind fun w => ?_
  split
  · exact keeps_unlink _
  · exact keeps_pure ()

theorem keeps_writeFile (h : InTree feed path) (c : Content W R) :
    Eff.Keeps (StaysInTree feed) (writeFile path c : Prog (Content W R) Unit) :=
  keeps_modify fun _ hw => hw.insert h c

variable {codec : Codec W R} {s : Sys W R}

/-- The phases of a compaction write the L1 file, its lineage file and the marker. -/
theorem Tidy.compact (h : Tidy feed s) {stage : Stage} {job : Job R}
    (hjob : s.job = some (stage, job)) : Tidy feed (s.compact codec false stage job) := by
  obtain ⟨hsealed, hmarket⟩ := h.job stage job hjob
  have hnext : ∀ (stage' st : Stage) (j : Job R), some (stage', job) = some (st, j) →
      Below (walDir feed) j.sealedPath ∧
        ∀ file, Below (marketDir feed) (j.target.dir ++ [file]) := by
    intro stage' st j heq
    cases heq
    exact ⟨hsealed, hmarket⟩
  cases stage with
  | write =>
    have hkeep : Eff.Keeps (StaysInTree feed) (writeSegment job : Prog (Content W R) Unit) := by
      unfold writeSegment
      cases job.table with
      | none => exact keeps_pure ()
      | some table => exact keeps_writeFile (Or.inr (hmarket _)) _
    exact ⟨hkeep s.world h.files, h.pending, hnext .upload⟩
  | upload => exact ⟨h.files, h.pending, hnext .mark⟩
  | mark =>
    have hkeep : Eff.Keeps (StaysInTree feed)
        (markSegment codec job : Prog (Content W R) Path) := by
      refine (keeps_writeFile (Or.inr (hmarket _)) _).bind fun _ => Eff.Keeps.bind ?_
        fun _ => keeps_pure _
      refine keeps_get.bind fun w => ?_
      split
      · exact keeps_pure ()
      · exact keeps_writeFile (Or.inl (hsealed.withSuffix _)) _
    exact ⟨hkeep s.world h.files, h.pending, nofun⟩

/-- What a read that returned says about its job. -/
theorem readSegment_job [Timed R] (env : Env R) (codec : Codec W R) (path : Path)
    (w : World (Content W R)) :
    wp (readSegment env codec path) (fun r w' => w'.files = w.files ∧
      ∀ job, r = .ok job → job.sealedPath = path ∧ l1Target env path = .ok job.target) w := by
  unfold readSegment
  cases htarget : l1Target env path with
  | error e => exact ⟨rfl, fun _ h => by cases h⟩
  | ok target =>
    simp only [Compactor.ofExcept, mkdir, wp_bind, wp_pure, wp_modify, wp_get]
    repeat' split
    all_goals
      refine ⟨rfl, ?_⟩
      rintro job ⟨⟩
    all_goals exact ⟨rfl, rfl⟩

/-- **Step lemma.** Without a dual writer every file stays in the trees of the stream. -/
theorem Tidy.step [Timed R] {s' : Sys W R} (h : Tidy feed s) {a : Action W}
    (hstep : (walMachine cfg env codec false feed).step s a = some s') : Tidy feed s' := by
  change s.step cfg env codec false feed a = some s' at hstep
  cases a with
  | advance seconds =>
    cases hstep
    exact ⟨h.files, h.pending, h.job⟩
  | create mono =>
    cases hstep
    have hkeep : WriterKeeps feed (create cfg feed s.clock mono : Method W R Unit) :=
      (keeps_modifyIngester _).bind fun _ => keeps_openNewSegment _ mono
    exact ⟨hkeep _ h.files, h.pending, h.job⟩
  | append mono record =>
    obtain ⟨ing, -, rfl⟩ := Option.map_eq_some_iff.mp hstep
    exact ⟨keeps_append s.clock mono record ⟨ing, s.world⟩ h.files, h.pending, h.job⟩
  | flush mono =>
    obtain ⟨ing, -, rfl⟩ := Option.map_eq_some_iff.mp hstep
    exact ⟨keeps_flush mono ⟨ing, s.world⟩ h.files, h.pending, h.job⟩
  | close =>
    obtain ⟨ing, -, rfl⟩ := Option.map_eq_some_iff.mp hstep
    exact ⟨keeps_close ⟨ing, s.world⟩ h.files, h.pending, h.job⟩
  | scan =>
    cases hstep
    exact ⟨h.files, fun path hmem => below_of_scanSealed h.files hmem, nofun⟩
  | beginSegment =>
    obtain ⟨path, rest, hpending, rfl⟩ := Sys.eq_of_step_beginSegment hstep
    have hpath : Below (walDir feed) path := h.pending path (by simp [hpending])
    have hpost := readSegment_job env codec path s.world
    unfold Sys.beginSegment
    generalize readSegment env codec path = m at hpost ⊢
    obtain ⟨hfiles, hjob⟩ := hpost
    refine ⟨?_, fun path' hmem => h.pending path' (by simp [hpending, hmem]), ?_⟩
    · show FilesInTree feed (m s.world).2.files
      rw [hfiles]
      exact h.files
    · intro stage job hsome
      obtain ⟨-, hr⟩ := jobOf_eq_some hsome
      obtain ⟨rfl, htarget⟩ := hjob job hr
      exact ⟨hpath, below_l1Target hpath htarget⟩
  | compact =>
    obtain ⟨⟨stage, job⟩, hjob, rfl⟩ := Option.map_eq_some_iff.mp hstep
    exact h.compact hjob
  | gc marker =>
    obtain ⟨-, rfl⟩ := Sys.eq_of_step_gc hstep
    exact ⟨keeps_gcOne marker s.world h.files, h.pending, h.job⟩

/-- **Run lemma.** -/
theorem filesInTree_of_reaches [Timed R] {g : Sys W R → Action W → Prop}
    (h : (walMachine cfg env codec false feed).Reaches g s) :
    FilesInTree feed s.world.files := by
  have htidy : Tidy feed s := by
    refine h.invariant (I := fun s => Tidy feed s) ?_ fun s a s' hs _ hstep => hs.step hstep
    rintro s ⟨hfiles, -, -, hpending, hjob, -⟩
    exact ⟨by simp [FilesInTree, hfiles], by simp [hpending], by simp [hjob]⟩
  exact htidy.files

end

/-! ## scans of another tree -/

section

variable {W R K : Type} {feed : Feed} {files : Files W R}

/-- A tree of another name has no files. -/
theorem parquetFiles_of_tree (h : FilesInTree feed files) {tree : String}
    (htree : tree ≠ feed.channel) (rest : Path) :
    parquetFiles files ("market" :: tree :: rest) = [] := by
  have hnone : (files.keys.filter fun path => ("market" :: tree :: rest).isPrefixOf path.dropLast &&
      hasSuffix ".parquet" (path.getLastD "")) = [] := by
    rw [List.filter_eq_nil_iff]
    intro path hmem hboth
    rw [← AList.mem_keys, ← AList.lookup_isSome] at hmem
    rw [Bool.and_eq_true, List.isPrefixOf_iff_prefix] at hboth
    have hprefix : "market" :: tree :: rest <+: path := hboth.1.trans (List.dropLast_prefix path)
    rcases h path hmem with ⟨more, -, rfl⟩ | ⟨more, -, rfl⟩
    · rw [walDir, List.cons_append, List.cons_prefix_cons] at hprefix
      exact absurd hprefix.1 (by decide)
    · rw [marketDir, List.cons_append, List.cons_append, List.cons_prefix_cons,
        List.cons_prefix_cons] at hprefix
      exact htree hprefix.2.1
  unfold parquetFiles
  rw [hnone]
  rfl

theorem dateRange_eq_nil_iff (env : Env R) (start stop : Int) :
    dateRange env start stop = [] ↔ dayOf stop < dayOf start := by
  unfold dateRange
  rw [List.map_eq_nil_iff, List.range_eq_nil]
  omega

/-- A stream scanned in a tree without files: its names are checked, and no row comes. -/
theorem scanStream_of_tree [DecidableEq K] (h : FilesInTree feed files) {tree : String}
    (htree : tree ≠ feed.channel) (env : Env R)
    (hiso : ∀ day, safePathComponent (env.isoformat day))
    (kind : RowKind R K) (schemaVer exchange symbol : String) (start stop : Int)
    (clock : Option Int) :
    scanStream env kind files (partitionDir tree schemaVer exchange symbol) start stop clock =
      if dayOf stop < dayOf start ∨ (safePathComponent exchange ∧ safePathComponent symbol)
      then .ok [] else .error .valueError := by
  have hrows : ∀ rest, readParquetRows files ("market" :: tree :: rest) = .ok [] := by
    intro rest
    unfold readParquetRows
    rw [parquetFiles_of_tree h htree rest]
    rfl
  have hempty : ∀ dates : List String,
      (dates.map fun _ => ([] : List (ReadRow R))).flatten = [] := by simp
  unfold scanStream scanRows
  by_cases hsafe : safePathComponent exchange ∧ safePathComponent symbol
  · rw [if_pos (Or.inr hsafe), mapM_eq_ok (g := fun _ => [])]
    · show Except.ok (emitRows kind (List.insertionSort _ (List.flatten _))) = .ok []
      rw [hempty]
      rfl
    · intro dateStr hmem
      obtain ⟨i, -, rfl⟩ := List.mem_map.mp hmem
      unfold partitionDir
      rw [hsafe.1, hsafe.2, hiso]
      show (readParquetRows files _ >>= _) = _
      rw [hrows]
      rfl
  · by_cases hdates : dateRange env start stop = []
    · rw [if_pos (Or.inl ((dateRange_eq_nil_iff env start stop).mp hdates)), hdates]
      rfl
    · have hlong : ¬ (dayOf stop < dayOf start ∨
          (safePathComponent exchange ∧ safePathComponent symbol)) := by
        rw [← dateRange_eq_nil_iff env]
        exact not_or.mpr ⟨hdates, hsafe⟩
      -- the first date already makes the name check raise
      rw [if_neg hlong, mapM_eq_error hdates (e := .valueError)]
      · rfl
      · intro dateStr _
        have hfalse : (safePathComponent exchange && safePathComponent symbol &&
            safePathComponent dateStr) = false := by
          rw [← Bool.not_eq_true, Bool.and_eq_true, Bool.and_eq_true]
          exact fun hall => hsafe hall.1
        unfold partitionDir
        rw [hfalse]
        rfl

/-- The same for snapshots, whose scan checks no names. -/
theorem scanOrderbookSnapshots_of_tree {files : Files W SnapshotRow} (h : FilesInTree feed files)
    (htree : "orderbook_snapshot" ≠ feed.channel) (env : Env SnapshotRow) (exchange symbol : String)
    (start stop : Int) (clock : Option Int) :
    scanOrderbookSnapshots env files exchange symbol start stop clock = [] := by
  have hrows : ∀ dateStr, readableRows files (snapshotDir exchange symbol dateStr) = [] := by
    intro dateStr
    unfold readableRows snapshotDir
    rw [parquetFiles_of_tree h htree]
    rfl
  unfold scanOrderbookSnapshots
  simp only [hrows, List.filter_nil]
  rw [List.flatMap_eq_nil_iff.mpr fun _ _ => rfl]
  rfl

end

/-! ## main result -/

/-- The collector appends the records of events. -/
def Emits {W R E : Type} [Blob (Content W R)] (record : E → W) : Sys W R → Action W → Prop
  | _, .append _ r => ∃ event, r = record event
  | _, _ => True

/-- A trade as a scan returns it. -/
def tradeOf (r : TransactionRecord) : TickRow :=
  ⟨r.tsUtc, r.receivedAt, r.exchange, r.symbol, r.price, r.quantity, r.side, r.rawJson⟩

/-- One side of a snapshot as a scan returns it, one row per level. -/
def sideOf (lib : RecordLib) (r : SnapshotRecord) (side : Side) (levels : List BookLevel) :
    List SnapshotRow :=
  levels.zipIdx.map fun (l, i) =>
    ⟨r.tsUtc, r.receivedAt, r.exchange, r.symbol, lib.baselineSeq r.tsUtc, side, i, l.price,
      l.quantity, lib.payloadHash r.exchange r.symbol (lib.baselineSeq r.tsUtc) r.bids r.asks,
      r.rawJson⟩

def levelsOf (lib : RecordLib) (r : SnapshotRecord) : List SnapshotRow :=
  sideOf lib r .bid r.bids ++ sideOf lib r .ask r.asks

/-- The scan returns exactly the appended trades of the window. -/
def TicksReadable (env : Env TickRow) (s : Sys TransactionRecord TickRow) (exchange symbol : String)
    (start stop : Int) : Prop :=
  ∃ rows, scanTicks env s.world.files exchange symbol start stop none = .ok rows ∧
    rows.Perm ((s.acked.filter fun r => decide (start ≤ r.tsUtc ∧ r.tsUtc < stop)).map tradeOf)

/-- The scan returns exactly one row per level of the appended snapshots of the window. -/
def SnapshotsReadable (lib : RecordLib) (env : Env SnapshotRow) (s : Sys SnapshotRecord SnapshotRow)
    (exchange symbol : String) (start stop : Int) : Prop :=
  (scanOrderbookSnapshots env s.world.files exchange symbol start stop none).Perm
    ((s.acked.filter fun r => decide (start ≤ r.tsUtc ∧ r.tsUtc < stop)).flatMap (levelsOf lib))

variable {lib : RecordLib} {cfg : Config} {exchange symbol nodeId : String}

theorem levelsOf_eq_nil_iff (lib : RecordLib) (r : SnapshotRecord) :
    levelsOf lib r = [] ↔ r.bids = [] ∧ r.asks = [] := by
  simp [levelsOf, sideOf]

/-- **When collected data can be read.** After any run of the collector's ingester and the
compactor, a scan returns the trades (the snapshot levels) appended in its window exactly
when there are none, and, for trades, the names pass the path check or the window has no
date. -/
theorem collected_readable_iff :
    (∀ (env : Env TickRow) (s : Sys TransactionRecord TickRow),
      (∀ day, safePathComponent (env.isoformat day)) →
      (walMachine cfg env (tickCodec lib) false
        ⟨exchange, "transaction", symbol, nodeId⟩).Reaches
          (Emits (transactionRecord exchange symbol)) s →
      ∀ start stop, TicksReadable env s exchange symbol start stop ↔
        (dayOf stop < dayOf start ∨ (safePathComponent exchange ∧ safePathComponent symbol)) ∧
          ∀ r ∈ s.acked, ¬ (start ≤ r.tsUtc ∧ r.tsUtc < stop)) ∧
    ∀ (env : Env SnapshotRow) (s : Sys SnapshotRecord SnapshotRow),
      (walMachine cfg env (snapshotCodec lib) false
        ⟨exchange, "orderbooksnapshot", symbol, nodeId⟩).Reaches
          (Emits (snapshotRecord exchange symbol)) s →
      ∀ start stop, SnapshotsReadable lib env s exchange symbol start stop ↔
        ∀ r ∈ s.acked, start ≤ r.tsUtc → r.tsUtc < stop → r.bids = [] ∧ r.asks = [] := by
  constructor
  · intro env s hiso hreach start stop
    have hfiles := filesInTree_of_reaches hreach
    unfold TicksReadable scanTicks tickPartitionDir
    rw [scanStream_of_tree hfiles (show "ticks" ≠ "transaction" by decide) env hiso]
    by_cases hok : dayOf stop < dayOf start ∨
      (safePathComponent exchange ∧ safePathComponent symbol)
    · simp only [hok, if_true, Except.ok.injEq, exists_eq_left', List.nil_perm,
        List.map_eq_nil_iff, List.filter_eq_nil_iff, decide_eq_true_eq, true_and]
    · simp only [hok, if_false, reduceCtorEq, false_and, exists_false]
  · intro env s hreach start stop
    have hfiles := filesInTree_of_reaches hreach
    unfold SnapshotsReadable
    rw [scanOrderbookSnapshots_of_tree hfiles
      (show "orderbook_snapshot" ≠ "orderbooksnapshot" by decide), List.nil_perm,
      List.flatMap_eq_nil_iff]
    simp only [List.mem_filter, decide_eq_true_eq, levelsOf_eq_nil_iff, and_imp]

/-! ## one trade and one snapshot -/

/-- One run id, one batch per file, and dates as a letter and tally marks. -/
def markEnv (R : Type) : Env R where
  runId _ := "0123456789abcdef"
  pid := "1"
  iterBatches rows := [rows]
  iterBatches_flatten rows := by simp
  isoformat day := String.ofList ('D' :: match day with
    | .ofNat n => List.replicate n '1'
    | .negSucc n => '-' :: List.replicate n '1')
  fromisoformat text := some <| match text.toList.drop 1 with
    | '-' :: marks => .negSucc marks.length
    | marks => .ofNat marks.length
  fromisoformat_isoformat day := by
    cases day with
    | ofNat n => cases n <;> simp [List.replicate_succ]
    | negSucc n => simp

theorem safePathComponent_marks {marks : List Char} (h : ∀ c ∈ marks, c = '1' ∨ c = '-') :
    safePathComponent (String.ofList ('D' :: marks)) = true := by
  have hchars : ∀ c ∈ 'D' :: marks, c = 'D' ∨ c = '1' ∨ c = '-' := by
    intro c hc
    exact (List.mem_cons.mp hc).imp_right (h c)
  have hdots : ¬ ['.', '.'] <:+: 'D' :: marks := fun hdots =>
    absurd (hchars '.' (hdots.subset List.mem_cons_self)) (by decide)
  have hlast : ('D' :: marks).getLast? ≠ some '\n' := fun hlast =>
    absurd (hchars '\n' (List.mem_of_getLast? hlast)) (by decide)
  have hall : ('D' :: marks).all allowedChar = true := by
    rw [List.all_eq_true]
    intro c hc
    rcases hchars c hc with rfl | rfl | rfl <;> decide
  unfold safePathComponent matchesAllowed
  rw [String.toList_ofList, if_neg hlast, decide_eq_false hdots]
  simp only [hall]
  rfl

theorem markEnv_safe (R : Type) (day : Int) :
    safePathComponent ((markEnv R).isoformat day) = true := by
  refine safePathComponent_marks fun c hc => ?_
  cases day with
  | ofNat n => exact Or.inl (List.eq_of_mem_replicate hc)
  | negSucc n =>
    rcases List.mem_cons.mp hc with rfl | hc
    · exact Or.inr rfl
    · exact Or.inl (List.eq_of_mem_replicate hc)

def plainLib : RecordLib := ⟨fun _ => true, fun _ _ _ _ _ => "hash", id⟩

def feedTicks : Feed := ⟨"bithumb", "transaction", "KRW-BTC", "n1"⟩

def feedBooks : Feed := ⟨"bithumb", "orderbooksnapshot", "KRW-BTC", "n1"⟩

/-- Collect one record, seal its segment and compact it. -/
def collectOne {W : Type} (record : W) : List (Action W) :=
  [.create 0, .append 0 record, .close, .scan, .beginSegment, .compact, .compact, .compact]

def tradeA : TransactionEvent := ⟨5, 6, 1, 2, "buy", none⟩

def bookA : SnapshotEvent := ⟨5, 6, [⟨1, 2⟩], [⟨3, 4⟩], none⟩

/-- An empty disk. -/
def emptyStream (W R : Type) [Blob (Content W R)] : Sys W R where
  world := ⟨∅, [], ∅, none, Stream'.const (.ok "etag" none), Stream'.const false⟩
  clock := 0

def tickMachine : Machine (Sys TransactionRecord TickRow) (Action TransactionRecord) :=
  walMachine .defaults (markEnv TickRow) (tickCodec plainLib) false feedTicks

def bookMachine : Machine (Sys SnapshotRecord SnapshotRow) (Action SnapshotRecord) :=
  walMachine .defaults (markEnv SnapshotRow) (snapshotCodec plainLib) false feedBooks

/-- The trade collected and compacted. -/
def collectedTrade : Sys TransactionRecord TickRow :=
  (tickMachine.run (emptyStream _ _)
    (collectOne (transactionRecord "bithumb" "KRW-BTC" tradeA))).getD (emptyStream _ _)

def collectedBook : Sys SnapshotRecord SnapshotRow :=
  (bookMachine.run (emptyStream _ _)
    (collectOne (snapshotRecord "bithumb" "KRW-BTC" bookA))).getD (emptyStream _ _)

theorem emits_collectOne {W R E : Type} [Blob (Content W R)] (record : E → W) (event : E) :
    ∀ a ∈ collectOne (record event), ∀ s : Sys W R, Emits record s a := by
  intro a hmem s
  simp only [collectOne, List.mem_cons, List.not_mem_nil, or_false] at hmem
  rcases hmem with rfl | rfl | rfl | rfl | rfl | rfl | rfl | rfl <;>
    first | trivial | exact ⟨event, rfl⟩

private theorem eq_some_getD {α : Type} {o : Option α} (h : o.isSome = true) (d : α) :
    o = some (o.getD d) := by
  obtain ⟨a, rfl⟩ := Option.isSome_iff_exists.mp h
  rfl

theorem tickMachine_reaches :
    tickMachine.Reaches (Emits (transactionRecord "bithumb" "KRW-BTC")) collectedTrade :=
  Machine.reaches_of_guarded_run (.init ⟨rfl, rfl, rfl, rfl, rfl, rfl⟩)
    (emits_collectOne (transactionRecord "bithumb" "KRW-BTC") tradeA)
    (eq_some_getD (by decide +kernel) _)

theorem bookMachine_reaches :
    bookMachine.Reaches (Emits (snapshotRecord "bithumb" "KRW-BTC")) collectedBook :=
  Machine.reaches_of_guarded_run (.init ⟨rfl, rfl, rfl, rfl, rfl, rfl⟩)
    (emits_collectOne (snapshotRecord "bithumb" "KRW-BTC") bookA)
    (eq_some_getD (by decide +kernel) _)

/-- A window without the trade and without the snapshot. -/
theorem collected_readable_outside :
    TicksReadable (markEnv TickRow) collectedTrade "bithumb" "KRW-BTC" 10 20 ∧
      SnapshotsReadable plainLib (markEnv SnapshotRow) collectedBook "bithumb" "KRW-BTC" 10 20 := by
  refine ⟨(collected_readable_iff.1 _ _ (markEnv_safe TickRow) tickMachine_reaches 10 20).mpr
    ⟨Or.inr (by decide +kernel), by decide +kernel⟩, ?_⟩
  exact (collected_readable_iff.2 _ _ bookMachine_reaches 10 20).mpr (by decide +kernel)

/-- **A collected trade and a collected snapshot are not found.** Their segments are
compacted and their L1 files are there, and the scans return no row. -/
theorem collected_not_readable :
    (tickMachine.Reaches (Emits (transactionRecord "bithumb" "KRW-BTC")) collectedTrade ∧
      scanSealed collectedTrade.world = [] ∧
      collectedTrade.acked = [transactionRecord "bithumb" "KRW-BTC" tradeA] ∧
      ¬ TicksReadable (markEnv TickRow) collectedTrade "bithumb" "KRW-BTC" 0 10) ∧
    bookMachine.Reaches (Emits (snapshotRecord "bithumb" "KRW-BTC")) collectedBook ∧
      scanSealed collectedBook.world = [] ∧
      collectedBook.acked = [snapshotRecord "bithumb" "KRW-BTC" bookA] ∧
      ¬ SnapshotsReadable plainLib (markEnv SnapshotRow)
        collectedBook "bithumb" "KRW-BTC" 0 10 := by
  have hticks : scanTicks (markEnv TickRow)
      collectedTrade.world.files "bithumb" "KRW-BTC" 0 10 none =
      .ok [] := by decide +kernel
  have hbooks : scanOrderbookSnapshots (markEnv SnapshotRow) collectedBook.world.files "bithumb"
      "KRW-BTC" 0 10 none = [] := by decide +kernel
  refine ⟨⟨tickMachine_reaches, by decide +kernel, by decide +kernel, ?_⟩, bookMachine_reaches,
    by decide +kernel, by decide +kernel, ?_⟩
  · rintro ⟨rows, hrows, hperm⟩
    cases hticks.symm.trans hrows
    exact absurd hperm.length_eq (by decide +kernel)
  · intro hperm
    exact absurd hperm.length_eq (by rw [hbooks]; decide +kernel)

end MctraderData.Read
