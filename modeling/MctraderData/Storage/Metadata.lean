import Mathlib.Data.List.Dedup
import Mathlib.Data.String.Basic
import MctraderData.Read.Scan

/-!
# mctrader-data — the history of exchange metadata

Model of `ExchangeMetadataWriter` of `metadata_storage.py` and of `scan_exchange_metadata` of
`storage.py`. A writer collects records and writes them to one parquet file for each date on
which it flushes; a file is complete when it is closed, with the writer or on a change of
date. The reader takes the latest record up to a time from the directories of the dates up
to it.

A flush puts all collected records into the directory of the first one's date. A writer that
opens a file under a name that exists writes over it: without node and run id the name is
the same in every session of a day, and with them the numbering begins at zero in every
session.

`date.isoformat` and `date.fromisoformat` are parameters, on days since the epoch. Sessions
follow one another. `written` has no counterpart in the source: it has the records for which
`append` returned `"written"`.

Main result: `scan_returns_latest` — if no file is written over and no record goes to the
directory of a later day than its own, the reader has the latest record of all that were
written.
-/

namespace MctraderData.Storage

open Compactor
open Read
open Lib

/-- ISO dates, which sort like the dates they stand for. -/
structure IsoDates where
  isoformat : Int → String
  fromisoformat : String → Option Int
  fromisoformat_isoformat : ∀ day, fromisoformat (isoformat day) = some day
  isoformat_lt : ∀ day day', day < day' → (isoformat day).toList < (isoformat day').toList

/-! ## the writer -/

/-- `ExchangeMetadataRecord`, and a row of `exchange_metadata.v1` -/
structure MetadataRecord where
  exchange : String
  symbol : String
  fetchedDate : Int
  fetchedAt : Int
  sourceSnapshotId : String
  dataHash : String
  assetStatus : String
  accTradeValue24h : ℚ
  tickSize : Option ℚ := none
  minOrderQty : Option ℚ := none
  feeMaker : Option ℚ := none
  feeTaker : Option ℚ := none
  minOrderNotionalKrw : Option ℚ := none
deriving DecidableEq

abbrev MetadataFiles := Files Unit MetadataRecord

/-- The arguments of a session. -/
structure SessionIds where
  nodeId : Option String := none
  collectorRunId : Option String := none
  snapshotId : Option String := none

/-- `snapshot_id or "default"` -/
def SessionIds.snapshot (ids : SessionIds) : String :=
  match ids.snapshotId with
  | none => "default"
  | some text => if text = "" then "default" else text

/-- A parquet file that is being written. -/
structure OpenFile where
  date : String
  path : Path
  rows : List MetadataRecord

/-- `ExchangeMetadataWriter`. The current date, path and writer are set together. -/
structure Writer where
  ids : SessionIds
  batchSeq : Nat := 0
  buffer : List MetadataRecord := []
  current : Option OpenFile := none
  seen : AList fun _ : String × String × String => String := ∅

variable (dates : IsoDates) (exchange : String)

/-- The directory of an exchange. -/
def metaRoot : Path :=
  ["market", "exchange_metadata", "schema_version=exchange_metadata.v1", "exchange=" ++ exchange]

def dateDir (dateStr : String) : String := "fetched_date=" ++ dateStr

/-- `_derive_partition` -/
def derivePartition (ids : SessionIds) (fetchedDate : Int) : Path :=
  metaRoot exchange ++ [dateDir (dates.isoformat fetchedDate)] ++
    (ids.nodeId.map ("node=" ++ ·)).toList

/-- The name of the next file, without its ending. -/
def Writer.fileStem (w : Writer) : String :=
  match w.ids.nodeId, w.ids.collectorRunId with
  | some _, some runId => runId ++ "-" ++ toString w.batchSeq
  | _, _ => "part-" ++ w.ids.snapshot

/-- The number of the file after the next. -/
def Writer.nextSeq (w : Writer) : Nat :=
  match w.ids.nodeId, w.ids.collectorRunId with
  | some _, some _ => w.batchSeq + 1
  | _, _ => w.batchSeq

/-- Where a writer puts its next file. -/
def Writer.target (w : Writer) (fetchedDate : Int) : Path :=
  derivePartition dates exchange w.ids fetchedDate ++ [w.fileStem ++ ".parquet"]

/-- A file without its footer. -/
def unfinished : Content Unit MetadataRecord := .text ""

/-- `current_writer.close()` -/
def closeFile (files : MetadataFiles) : Option OpenFile → MetadataFiles
  | none => files
  | some f => files.insert f.path (.parquet ⟨"exchange_metadata.v1", [f.rows], true⟩)

/-- The change of date in `_flush_locked`: the old file is closed, a new one opened. -/
def rotate (files : MetadataFiles) (w : Writer) (fetchedDate : Int) : MetadataFiles × Writer :=
  ((closeFile files w.current).insert (w.target dates exchange fetchedDate) unfinished,
    { w with
      batchSeq := w.nextSeq
      current := some ⟨dates.isoformat fetchedDate, w.target dates exchange fetchedDate, []⟩ })

/-- `write_table` with the whole buffer -/
def writeBuffer (w : Writer) : Writer :=
  { w with
    current := w.current.map fun f => { f with rows := f.rows ++ w.buffer }
    buffer := [] }

/-- The file in use is that of the date. -/
def Writer.onDate (w : Writer) (fetchedDate : Int) : Bool :=
  w.current.any fun f => f.date == dates.isoformat fetchedDate

/-- `_flush_locked` -/
def flushLocked (files : MetadataFiles) (w : Writer) : MetadataFiles × Writer :=
  match w.buffer with
  | [] => (files, w)
  | first :: _ =>
    if w.onDate dates first.fetchedDate then (files, writeBuffer w)
    else
      let (files', w') := rotate dates exchange files w first.fetchedDate
      (files', writeBuffer w')

inductive AppendStatus where
  | written
  | skipped
  | quarantine
deriving DecidableEq, Repr

/-- The key of the dedup cache. -/
def seenKey (r : MetadataRecord) : String × String × String :=
  (r.symbol, dates.isoformat r.fetchedDate, r.sourceSnapshotId)

/-- A record that is not in the cache, put into the buffer. -/
def Writer.push (w : Writer) (r : MetadataRecord) : Writer :=
  { w with buffer := w.buffer ++ [r], seen := w.seen.insert (seenKey dates r) r.dataHash }

/-- `append` -/
def appendRecord (files : MetadataFiles) (w : Writer) (r : MetadataRecord) :
    AppendStatus × MetadataFiles × Writer :=
  match w.seen.lookup (seenKey dates r) with
  | some existing => (if existing = r.dataHash then .skipped else .quarantine, files, w)
  | none =>
    if 500 ≤ (w.push dates r).buffer.length then
      (.written, flushLocked dates exchange files (w.push dates r))
    else (.written, files, w.push dates r)

/-- `close` -/
def closeWriter (files : MetadataFiles) (w : Writer) : MetadataFiles :=
  let (files', w') := flushLocked dates exchange files w
  closeFile files' w'.current

/-! ## sessions -/

/-- The files, the writer of the present session, and the records that were written. -/
structure MetadataState where
  files : MetadataFiles := ∅
  writer : Option Writer := none
  written : List MetadataRecord := []

inductive MetadataAction where
  | start (ids : SessionIds)
  | append (r : MetadataRecord)
  | flush
  | close

/-- One call. A session starts when the one before it is closed. -/
def metadataStep (s : MetadataState) (action : MetadataAction) : Option MetadataState :=
  match s.writer, action with
  | none, .start ids => some { s with writer := some { ids } }
  | some w, .append r =>
    let (status, files, w') := appendRecord dates exchange s.files w r
    some ⟨files, some w', if status = .written then s.written ++ [r] else s.written⟩
  | some w, .flush =>
    let (files, w') := flushLocked dates exchange s.files w
    some { s with files, writer := some w' }
  | some w, .close =>
    some { s with files := closeWriter dates exchange s.files w, writer := none }
  | _, _ => none

def metadataMachine : Machine MetadataState MetadataAction where
  init s := s = {}
  step := metadataStep dates exchange

/-! ## scan_exchange_metadata -/

/-- One row: a later one that is not after the time takes the place of the best. -/
def better (symbol : String) (ts : Int) (best : Option MetadataRecord) (row : MetadataRecord) :
    Option MetadataRecord :=
  if row.symbol ≠ symbol then best
  else if ts < row.fetchedAt then best
  else match best with
    | none => some row
    | some b => if b.fetchedAt < row.fetchedAt then some row else best

/-- The date of a directory; other names are passed over. -/
def dirDate (name : String) : Option Int :=
  if hasPrefix "fetched_date=" name then
    dates.fromisoformat (String.ofList (name.toList.drop 13))
  else none

/-- `sorted(meta_root.iterdir())` -/
def dirNames (files : MetadataFiles) : List String :=
  ((files.keys.filterMap fun path =>
    if (metaRoot exchange).isPrefixOf path.dropLast then path[(metaRoot exchange).length]?
    else none).dedup).insertionSort fun a b => a.toList ≤ b.toList

/-- The loop over the directories, which stops at the first date after the cutoff. -/
def scanDirs (files : MetadataFiles) (symbol : String) (ts : Int) :
    List String → Option MetadataRecord → Option MetadataRecord
  | [], best => best
  | name :: names, best =>
    match dirDate dates name with
    | none => scanDirs files symbol ts names best
    | some day =>
      if dayOf ts < day then best
      else scanDirs files symbol ts names
        ((readableRows files (metaRoot exchange ++ [name])).foldl (better symbol ts) best)

/-- `scan_exchange_metadata` -/
def scanExchangeMetadata (files : MetadataFiles) (symbol : String) (ts : Int) :
    Option MetadataRecord :=
  scanDirs dates exchange files symbol ts (dirNames exchange files) none

/-! ## the latest of some records -/

/-- A record of the symbol, not after the time. -/
def Eligible (symbol : String) (ts : Int) (r : MetadataRecord) : Prop :=
  r.symbol = symbol ∧ r.fetchedAt ≤ ts

/-- The latest eligible record of some; `none` if there is none. -/
def IsLatest (rows : List MetadataRecord) (symbol : String) (ts : Int) :
    Option MetadataRecord → Prop
  | none => ∀ r ∈ rows, ¬ Eligible symbol ts r
  | some best => best ∈ rows ∧ Eligible symbol ts best ∧
      ∀ r ∈ rows, Eligible symbol ts r → r.fetchedAt ≤ best.fetchedAt

section

variable {symbol : String} {ts : Int} {rows : List MetadataRecord} {best : Option MetadataRecord}
  {row : MetadataRecord}

theorem better_of_not_eligible (h : ¬ Eligible symbol ts row) :
    better symbol ts best row = best := by
  unfold better
  split_ifs with hsymbol hlate
  · rfl
  · rfl
  · exact absurd ⟨not_not.mp hsymbol, not_lt.mp hlate⟩ h

theorem better_of_eligible (h : Eligible symbol ts row) :
    better symbol ts best row =
      match best with
      | none => some row
      | some b => if b.fetchedAt < row.fetchedAt then some row else some b := by
  unfold better
  rw [if_neg (not_not.mpr h.1), if_neg (not_lt.mpr h.2)]
  cases best <;> rfl

theorem isLatest_concat_of_not_eligible (h : ¬ Eligible symbol ts row)
    (hbest : IsLatest rows symbol ts best) : IsLatest (rows ++ [row]) symbol ts best := by
  have hmem : ∀ r ∈ rows ++ [row], Eligible symbol ts r → r ∈ rows := by
    intro r hr he
    rcases List.mem_append.mp hr with hr | hr
    · exact hr
    · exact absurd (List.mem_singleton.mp hr ▸ he) h
  cases best with
  | none =>
    intro r hr he
    exact hbest r (hmem r hr he) he
  | some b =>
    obtain ⟨hb, hbe, hmax⟩ := hbest
    refine ⟨List.mem_append_left [row] hb, hbe, ?_⟩
    intro r hr he
    exact hmax r (hmem r hr he) he

theorem isLatest_concat_of_eligible (h : Eligible symbol ts row)
    (hbest : IsLatest rows symbol ts best) :
    IsLatest (rows ++ [row]) symbol ts (better symbol ts best row) := by
  rw [better_of_eligible h]
  have hmem : ∀ r, r ∈ rows ++ [row] ↔ r ∈ rows ∨ r = row := by simp
  cases best with
  | none => grind [IsLatest]
  | some b =>
    obtain ⟨hb, hbe, hmax⟩ := hbest
    simp only
    split <;> grind [IsLatest]

/-- A pass over rows finds the latest. -/
theorem foldl_better_isLatest (rows : List MetadataRecord) (symbol : String) (ts : Int) :
    IsLatest rows symbol ts (rows.foldl (better symbol ts) none) := by
  induction rows using List.reverseRecOn with
  | nil => simp [IsLatest]
  | append_singleton rows row ih =>
    rw [List.foldl_concat]
    by_cases h : Eligible symbol ts row
    · exact isLatest_concat_of_eligible h ih
    · rw [better_of_not_eligible h]
      exact isLatest_concat_of_not_eligible h ih

/-- Only eligible rows count. -/
theorem IsLatest.transfer {rows' : List MetadataRecord} (h : IsLatest rows symbol ts best)
    (hsub : ∀ r ∈ rows, r ∈ rows') (hall : ∀ r ∈ rows', r.fetchedAt ≤ ts → r ∈ rows) :
    IsLatest rows' symbol ts best := by
  cases best with
  | none =>
    intro r hr he
    exact h r (hall r hr he.2) he
  | some b =>
    obtain ⟨hb, hbe, hmax⟩ := h
    refine ⟨hsub b hb, hbe, ?_⟩
    intro r hr he
    exact hmax r (hall r hr he.2) he

end

/-! ## what the reader sees -/

section

variable {dates : IsoDates} {exchange : String} {files : MetadataFiles} {ts : Int}

/-- A parquet file below the directory of a day. -/
structure InPartition (dates : IsoDates) (exchange : String) (path : Path) (day : Int) : Prop where
  below : metaRoot exchange ++ [dateDir (dates.isoformat day)] <+: path.dropLast
  name : hasSuffix ".parquet" (path.getLastD "") = true

/-- Every file lies below the directory of a day. -/
def Dated (dates : IsoDates) (exchange : String) (files : MetadataFiles) : Prop :=
  ∀ path ∈ files, ∃ day, InPartition dates exchange path day

theorem dirDate_dateDir (day : Int) :
    dirDate dates (dateDir (dates.isoformat day)) = some day := by
  have hpre : hasPrefix "fetched_date=" (dateDir (dates.isoformat day)) = true := by
    unfold hasPrefix dateDir
    rw [String.toList_append]
    exact List.isPrefixOf_iff_prefix.mpr (List.prefix_append _ _)
  have hdrop : (dateDir (dates.isoformat day)).toList.drop 13 = (dates.isoformat day).toList := by
    unfold dateDir
    rw [String.toList_append]
    rfl
  unfold dirDate
  rw [if_pos hpre, hdrop, String.ofList_toList, dates.fromisoformat_isoformat]

/-- The directories sort like their dates. -/
theorem dateDir_lt {day day' : Int} (h : day < day') :
    (dateDir (dates.isoformat day)).toList < (dateDir (dates.isoformat day')).toList := by
  unfold dateDir
  rw [String.toList_append, String.toList_append]
  exact List.append_left_lt (dates.isoformat_lt day day' h)

/-- The directory of a file below the root. -/
theorem getElem?_of_below {root path : Path} {name : String}
    (h : root ++ [name] <+: path.dropLast) :
    root.isPrefixOf path.dropLast = true ∧ path[root.length]? = some name := by
  constructor
  · exact List.isPrefixOf_iff_prefix.mpr ((List.prefix_append root [name]).trans h)
  · obtain ⟨rest, hrest⟩ := h
    have hname : path.dropLast[root.length]? = some name := by
      rw [← hrest]
      simp
    rw [List.getElem?_dropLast] at hname
    split at hname
    · exact hname
    · cases hname

/-- A directory up to the day of the time. -/
def visible (dates : IsoDates) (ts : Int) (name : String) : Bool :=
  (dirDate dates name).any fun day => decide (day ≤ dayOf ts)

/-- A directory after it. -/
def beyond (dates : IsoDates) (ts : Int) (name : String) : Bool :=
  (dirDate dates name).any fun day => decide (dayOf ts < day)

/-- The rows of the directories up to the day of the time. -/
def visibleRows (dates : IsoDates) (exchange : String) (files : MetadataFiles) (ts : Int)
    (names : List String) : List MetadataRecord :=
  (names.filter (visible dates ts)).flatMap fun name =>
    readableRows files (metaRoot exchange ++ [name])

/-- If the loop stops before no directory that it should see, it goes over all that it
should. -/
theorem scanDirs_eq {symbol : String} {names : List String}
    (h : names.Pairwise fun name name' => beyond dates ts name = true →
      visible dates ts name' = false) (best : Option MetadataRecord) :
    scanDirs dates exchange files symbol ts names best =
      (visibleRows dates exchange files ts names).foldl (better symbol ts) best := by
  induction names generalizing best with
  | nil => rfl
  | cons name names ih =>
    obtain ⟨hname, hnames⟩ := List.pairwise_cons.mp h
    unfold scanDirs visibleRows
    cases hdate : dirDate dates name with
    | none =>
      have hhidden : ¬ visible dates ts name = true := by simp [visible, hdate]
      rw [List.filter_cons_of_neg hhidden]
      exact ih hnames best
    | some day =>
      simp only
      by_cases hlate : dayOf ts < day
      · have hbeyond : beyond dates ts name = true := by simp [beyond, hdate, hlate]
        have hhidden : ¬ visible dates ts name = true := by simp [visible, hdate, hlate]
        -- the loop breaks here, and nothing later would be visible
        have hrest : names.filter (visible dates ts) = [] := by
          apply List.filter_eq_nil_iff.mpr
          intro name' hname'
          rw [hname name' hname' hbeyond]
          exact Bool.false_ne_true
        rw [if_pos hlate, List.filter_cons_of_neg hhidden, hrest]
        rfl
      · have hvisible : visible dates ts name = true := by simp [visible, hdate, not_lt.mp hlate]
        rw [if_neg hlate, List.filter_cons_of_pos hvisible, List.flatMap_cons, List.foldl_append]
        exact ih hnames _

/-- The names below the root are those of the dates of the files. -/
theorem mem_dirNames (hdated : Dated dates exchange files) {name : String}
    (h : name ∈ dirNames exchange files) : ∃ day, name = dateDir (dates.isoformat day) := by
  unfold dirNames at h
  rw [List.mem_insertionSort, List.mem_dedup, List.mem_filterMap] at h
  obtain ⟨path, hpath, hname⟩ := h
  obtain ⟨day, hpartition⟩ := hdated path (AList.mem_keys.mpr hpath)
  obtain ⟨hroot, hdir⟩ := getElem?_of_below hpartition.below
  rw [if_pos hroot, hdir] at hname
  exact ⟨day, (Option.some.inj hname).symm⟩

theorem dirNames_pairwise (hdated : Dated dates exchange files) (ts : Int) :
    (dirNames exchange files).Pairwise fun name name' => beyond dates ts name = true →
      visible dates ts name' = false := by
  have hsorted : (dirNames exchange files).Pairwise fun a b => a.toList ≤ b.toList := by
    exact List.pairwise_insertionSort _ _
  refine hsorted.imp_of_mem ?_
  intro name name' hmem hmem' hle hbeyond
  obtain ⟨day, rfl⟩ := mem_dirNames hdated hmem
  obtain ⟨day', rfl⟩ := mem_dirNames hdated hmem'
  simp only [beyond, visible, dirDate_dateDir, Option.any_some, decide_eq_true_eq,
    decide_eq_false_iff_not] at hbeyond ⊢
  intro hvisible
  have hlt : day' < day := by omega
  exact absurd hle (not_le.mpr (dateDir_lt hlt))

/-- A record in a closed file below the directory of a day that is not after its own. -/
structure Filed (dates : IsoDates) (exchange : String) (files : MetadataFiles)
    (r : MetadataRecord) (path : Path) (table : Table MetadataRecord) (day : Int) : Prop where
  partition : InPartition dates exchange path day
  stored : files.lookup path = some (.parquet table)
  row : r ∈ table.rows
  inTime : day ≤ dayOf r.fetchedAt

/-- Such a record is seen from its time on. -/
theorem Filed.mem_visibleRows {r : MetadataRecord} {path : Path} {table : Table MetadataRecord}
    {day : Int} (h : Filed dates exchange files r path table day) (hts : r.fetchedAt ≤ ts) :
    r ∈ visibleRows dates exchange files ts (dirNames exchange files) := by
  have hkey : path ∈ files := AList.lookup_isSome.mp (by simp [h.stored])
  obtain ⟨hroot, hdir⟩ := getElem?_of_below h.partition.below
  have hname : dateDir (dates.isoformat day) ∈ dirNames exchange files := by
    unfold dirNames
    rw [List.mem_insertionSort, List.mem_dedup, List.mem_filterMap]
    refine ⟨path, AList.mem_keys.mp hkey, ?_⟩
    rw [if_pos hroot]
    exact hdir
  have hday : day ≤ dayOf ts := h.inTime.trans (dayOf_mono hts)
  have hvisible : visible dates ts (dateDir (dates.isoformat day)) = true := by
    simp [visible, dirDate_dateDir, hday]
  have hfile : path ∈ parquetFiles files
      (metaRoot exchange ++ [dateDir (dates.isoformat day)]) := by
    rw [mem_parquetFiles, Bool.and_eq_true, List.isPrefixOf_iff_prefix]
    exact ⟨hkey, h.partition.below, h.partition.name⟩
  apply List.mem_flatMap.mpr
  refine ⟨_, List.mem_filter.mpr ⟨hname, hvisible⟩, ?_⟩
  apply List.mem_flatMap.mpr
  refine ⟨path, hfile, ?_⟩
  rw [tableRows_of_lookup h.stored]
  exact h.row

/-- What is seen is in a file. -/
theorem exists_file_of_visible {names : List String} {r : MetadataRecord}
    (h : r ∈ visibleRows dates exchange files ts names) :
    ∃ path table, files.lookup path = some (.parquet table) ∧ r ∈ table.rows := by
  obtain ⟨name, -, h⟩ := List.mem_flatMap.mp h
  obtain ⟨path, -, h⟩ := List.mem_flatMap.mp h
  split at h
  · rename_i rows hrows
    obtain ⟨table, htable, rfl⟩ := tableRows_eq_ok_iff.mp hrows
    exact ⟨path, table, htable, h⟩
  · exact absurd h List.not_mem_nil

end

/-! ## what the writer keeps -/

section

variable {dates : IsoDates} {exchange : String} {files : MetadataFiles} {w : Writer}
  {written : List MetadataRecord}

/-- The files are dated and have written records only. -/
structure Archive (dates : IsoDates) (exchange : String) (files : MetadataFiles)
    (written : List MetadataRecord) : Prop where
  dated : Dated dates exchange files
  sound : ∀ path table, files.lookup path = some (.parquet table) → ∀ r ∈ table.rows, r ∈ written

/-- A written record is in a closed file. -/
def IsFiled (dates : IsoDates) (exchange : String) (files : MetadataFiles)
    (r : MetadataRecord) : Prop :=
  ∃ path table day, Filed dates exchange files r path table day

/-- The file in use has no footer yet, and lies on a day that is not after its records. -/
structure InUse (dates : IsoDates) (exchange : String) (files : MetadataFiles)
    (written : List MetadataRecord) (f : OpenFile) (day : Int) : Prop where
  date : f.date = dates.isoformat day
  partition : InPartition dates exchange f.path day
  unclosed : files.lookup f.path = some unfinished
  rows : ∀ r ∈ f.rows, r ∈ written ∧ day ≤ dayOf r.fetchedAt

/-- Every written record is in the buffer, in the file in use or in a closed file. -/
structure Held (dates : IsoDates) (exchange : String) (files : MetadataFiles) (w : Writer)
    (written : List MetadataRecord) : Prop extends Archive dates exchange files written where
  buffered : ∀ r ∈ w.buffer, r ∈ written
  inUse : ∀ f, w.current = some f → ∃ day, InUse dates exchange files written f day
  kept : ∀ r ∈ written, r ∈ w.buffer ∨ (∃ f, w.current = some f ∧ r ∈ f.rows) ∨
    IsFiled dates exchange files r

/-- Between sessions every written record is in a closed file. -/
structure AtRest (dates : IsoDates) (exchange : String) (files : MetadataFiles)
    (written : List MetadataRecord) : Prop extends Archive dates exchange files written where
  kept : ∀ r ∈ written, IsFiled dates exchange files r

variable {day : Int} {r : MetadataRecord}

theorem Filed.insert_ne {path path' : Path} {table : Table MetadataRecord}
    (h : Filed dates exchange files r path table day) (hne : path ≠ path')
    (content : Content Unit MetadataRecord) :
    Filed dates exchange (files.insert path' content) r path table day where
  partition := h.partition
  stored := (AList.lookup_insert_ne hne).trans h.stored
  row := h.row
  inTime := h.inTime

theorem Dated.insert (h : Dated dates exchange files) {path : Path}
    (hpath : InPartition dates exchange path day) (content : Content Unit MetadataRecord) :
    Dated dates exchange (files.insert path content) := by
  intro path' hmem
  rcases (AList.mem_insert files).mp hmem with rfl | hmem
  · exact ⟨day, hpath⟩
  · exact h path' hmem

/-- The file in use, closed. -/
theorem InUse.close (harchive : Archive dates exchange files written) {f : OpenFile}
    (huse : InUse dates exchange files written f day) :
    Archive dates exchange (closeFile files (some f)) written ∧
      (∀ r ∈ f.rows, IsFiled dates exchange (closeFile files (some f)) r) ∧
      ∀ r, IsFiled dates exchange files r →
        IsFiled dates exchange (closeFile files (some f)) r := by
  have hlookup : (closeFile files (some f)).lookup f.path =
      some (.parquet ⟨"exchange_metadata.v1", [f.rows], true⟩) := AList.lookup_insert files
  have hrows : ∀ r, r ∈ (Table.rows ⟨"exchange_metadata.v1", [f.rows], true⟩ :
      List MetadataRecord) ↔ r ∈ f.rows := by simp [Table.rows]
  refine ⟨⟨harchive.dated.insert huse.partition _, ?_⟩, ?_, ?_⟩
  · intro path table htable r hr
    rcases lookup_insert_eq_some.mp htable with ⟨-, ⟨⟩⟩ | ⟨-, htable⟩
    · exact (huse.rows r ((hrows r).mp hr)).1
    · exact harchive.sound path table htable r hr
  · intro r hr
    exact ⟨f.path, _, day, huse.partition, hlookup, (hrows r).mpr hr, (huse.rows r hr).2⟩
  · intro r ⟨path, table, day', hfiled⟩
    have hne : path ≠ f.path := by
      rintro rfl
      cases huse.unclosed.symm.trans hfiled.stored
    exact ⟨path, table, day', hfiled.insert_ne hne _⟩

/-- Whatever file is in use, after closing it the records are in the buffer or in files. -/
theorem Held.closeFile (h : Held dates exchange files w written) :
    Archive dates exchange (closeFile files w.current) written ∧
      ∀ r ∈ written, r ∈ w.buffer ∨ IsFiled dates exchange (closeFile files w.current) r := by
  cases hcurrent : w.current with
  | none =>
    refine ⟨h.toArchive, ?_⟩
    intro r hr
    rcases h.kept r hr with hbuffer | ⟨f, hf, -⟩ | hfiled
    · exact Or.inl hbuffer
    · cases hcurrent.symm.trans hf
    · exact Or.inr hfiled
  | some f =>
    obtain ⟨day, huse⟩ := h.inUse f hcurrent
    obtain ⟨harchive, hrows, hold⟩ := huse.close h.toArchive
    refine ⟨harchive, ?_⟩
    intro r hr
    rcases h.kept r hr with hbuffer | ⟨f', hf', hrow⟩ | hfiled
    · exact Or.inl hbuffer
    · cases hcurrent.symm.trans hf'
      exact Or.inr (hrows r hrow)
    · exact Or.inr (hold r hfiled)

theorem target_inPartition (dates : IsoDates) (exchange : String) (w : Writer) (day : Int) :
    InPartition dates exchange (w.target dates exchange day) day := by
  constructor
  · unfold Writer.target derivePartition
    rw [List.dropLast_concat]
    exact List.prefix_append _ _
  · unfold Writer.target
    rw [List.getLastD_concat]
    exact hasSuffix_append _ _

/-- A new file, where there is none. -/
theorem Held.rotate (h : Held dates exchange files w written)
    (hfree : files.lookup (w.target dates exchange day) = none) :
    Held dates exchange (rotate dates exchange files w day).1
      (rotate dates exchange files w day).2 written := by
  obtain ⟨harchive, hkept⟩ := h.closeFile
  have hpartition := target_inPartition dates exchange w day
  have hfree' : (Storage.closeFile files w.current).lookup
      (w.target dates exchange day) = none := by
    cases hcurrent : w.current with
    | none => exact hfree
    | some f =>
      obtain ⟨day', huse⟩ := h.inUse f hcurrent
      have hne : w.target dates exchange day ≠ f.path := by
        intro heq
        cases huse.unclosed.symm.trans (heq ▸ hfree)
      exact (AList.lookup_insert_ne hne).trans hfree
  refine ⟨⟨harchive.dated.insert hpartition _, ?_⟩, h.buffered, ?_, ?_⟩
  · intro path table htable r hr
    rcases lookup_insert_eq_some.mp htable with ⟨-, ⟨⟩⟩ | ⟨-, htable⟩
    exact harchive.sound path table htable r hr
  · rintro f ⟨⟩
    exact ⟨day, rfl, hpartition, AList.lookup_insert _, by simp⟩
  · intro r hr
    rcases hkept r hr with hbuffer | ⟨path, table, day', hfiled⟩
    · exact Or.inl hbuffer
    · have hne : path ≠ w.target dates exchange day := by
        rintro rfl
        cases hfree'.symm.trans hfiled.stored
      exact Or.inr (Or.inr ⟨path, table, day', hfiled.insert_ne hne _⟩)

/-- The buffer goes into the file in use. -/
theorem Held.writeBuffer (h : Held dates exchange files w written) {f : OpenFile}
    (hcurrent : w.current = some f) (hdate : f.date = dates.isoformat day)
    (hdays : ∀ r ∈ w.buffer, day ≤ dayOf r.fetchedAt) :
    Held dates exchange files (writeBuffer w) written := by
  obtain ⟨day', huse⟩ := h.inUse f hcurrent
  have hday : day' = day := by
    have hiso := dates.fromisoformat_isoformat day'
    rw [← huse.date, hdate, dates.fromisoformat_isoformat] at hiso
    exact (Option.some.inj hiso).symm
  have hnew : (Storage.writeBuffer w).current = some { f with rows := f.rows ++ w.buffer } := by
    unfold Storage.writeBuffer
    rw [hcurrent]
    rfl
  refine ⟨h.toArchive, by simp [Storage.writeBuffer], ?_, ?_⟩
  · intro f' hf'
    cases hnew.symm.trans hf'
    refine ⟨day', huse.date, huse.partition, huse.unclosed, ?_⟩
    intro r hr
    rcases List.mem_append.mp hr with hr | hr
    · exact huse.rows r hr
    · exact ⟨h.buffered r hr, hday ▸ hdays r hr⟩
  · intro r hr
    rcases h.kept r hr with hbuffer | ⟨f', hf', hrow⟩ | hfiled
    · exact Or.inr (Or.inl ⟨_, hnew, List.mem_append_right _ hbuffer⟩)
    · cases hcurrent.symm.trans hf'
      exact Or.inr (Or.inl ⟨_, hnew, List.mem_append_left _ hrow⟩)
    · exact Or.inr (Or.inr hfiled)

/-- A flush of a writer keeps what it should: its first record's day is not after any of the
buffer, and a new file does not exist yet. -/
def SafeFlush (dates : IsoDates) (exchange : String) (files : MetadataFiles) (w : Writer) : Prop :=
  ∀ first ∈ w.buffer.head?,
    (∀ r ∈ w.buffer, first.fetchedDate ≤ dayOf r.fetchedAt) ∧
    (w.onDate dates first.fetchedDate = false →
      files.lookup (w.target dates exchange first.fetchedDate) = none)

theorem Held.flushLocked (h : Held dates exchange files w written)
    (hsafe : SafeFlush dates exchange files w) :
    Held dates exchange (flushLocked dates exchange files w).1
        (flushLocked dates exchange files w).2 written ∧
      (flushLocked dates exchange files w).2.buffer = [] := by
  unfold Storage.flushLocked
  cases hbuffer : w.buffer with
  | nil => exact ⟨h, hbuffer⟩
  | cons first rest =>
    obtain ⟨hdays, hfree⟩ := hsafe first (by simp [hbuffer])
    simp only
    by_cases hdate : w.onDate dates first.fetchedDate = true
    · rw [if_pos hdate]
      obtain ⟨f, hf, hfdate⟩ := (Option.any_eq_true _ _).mp hdate
      exact ⟨h.writeBuffer hf (beq_iff_eq.mp hfdate) hdays, rfl⟩
    · rw [if_neg hdate]
      have hrotated := h.rotate (hfree (Bool.eq_false_iff.mpr hdate))
      exact ⟨hrotated.writeBuffer rfl rfl hdays, rfl⟩

/-- A record that is not in the cache is written. -/
theorem Held.push (h : Held dates exchange files w written) (r : MetadataRecord) :
    Held dates exchange files (w.push dates r) (written ++ [r]) := by
  have hold : ∀ x ∈ written, x ∈ written ++ [r] := fun x hx => List.mem_append_left [r] hx
  refine ⟨⟨h.dated, ?_⟩, ?_, ?_, ?_⟩
  · intro path table htable x hx
    exact hold x (h.sound path table htable x hx)
  · intro x hx
    rcases List.mem_append.mp hx with hx | hx
    · exact hold x (h.buffered x hx)
    · exact List.mem_append_right written hx
  · intro f hf
    obtain ⟨day, huse⟩ := h.inUse f hf
    exact ⟨day, { huse with rows := fun x hx => (huse.rows x hx).imp_left (hold x) }⟩
  · intro x hx
    rcases List.mem_append.mp hx with hx | hx
    · rcases h.kept x hx with hbuffer | hrest
      · exact Or.inl (List.mem_append_left [r] hbuffer)
      · exact Or.inr hrest
    · exact Or.inl (List.mem_append_right w.buffer hx)

/-- The flush that a call makes is safe. -/
def KeepsHistory (dates : IsoDates) (exchange : String) (s : MetadataState)
    (action : MetadataAction) : Prop :=
  ∀ w ∈ s.writer, match action with
    | .start _ => True
    | .append r => w.seen.lookup (seenKey dates r) = none →
      500 ≤ (w.push dates r).buffer.length → SafeFlush dates exchange s.files (w.push dates r)
    | .flush => SafeFlush dates exchange s.files w
    | .close => SafeFlush dates exchange s.files w

instance (files : MetadataFiles) (w : Writer) : Decidable (SafeFlush dates exchange files w) :=
  inferInstanceAs (Decidable (∀ first ∈ w.buffer.head?, _ ∧ (_ = false → _ = none)))

instance (s : MetadataState) : DecidablePred (KeepsHistory dates exchange s) := fun action =>
  match action with
  | .start _ => inferInstanceAs (Decidable (∀ w ∈ s.writer, True))
  | .append r => inferInstanceAs (Decidable (∀ w ∈ s.writer,
      w.seen.lookup (seenKey dates r) = none → 500 ≤ (w.push dates r).buffer.length →
        SafeFlush dates exchange s.files (w.push dates r)))
  | .flush | .close =>
    inferInstanceAs (Decidable (∀ w ∈ s.writer, SafeFlush dates exchange s.files w))

/-- Every written record is where it should be. -/
def HistoryKept (dates : IsoDates) (exchange : String) (s : MetadataState) : Prop :=
  match s.writer with
  | none => AtRest dates exchange s.files s.written
  | some w => Held dates exchange s.files w s.written

theorem historyKept_append {s s' : MetadataState} {w : Writer} (hwriter : s.writer = some w)
    (h : Held dates exchange s.files w s.written)
    (hguard : KeepsHistory dates exchange s (.append r))
    (hstep : metadataStep dates exchange s (.append r) = some s') :
    HistoryKept dates exchange s' := by
  cases hseen : w.seen.lookup (seenKey dates r) with
  | some existing =>
    have hstatus : (if existing = r.dataHash then AppendStatus.skipped else .quarantine) ≠
        .written := by split <;> simp
    simp only [metadataStep, hwriter, appendRecord, hseen, if_neg hstatus] at hstep
    cases hstep
    exact h
  | none =>
    simp only [metadataStep, hwriter, appendRecord, hseen] at hstep
    by_cases hfull : 500 ≤ (w.push dates r).buffer.length
    · simp only [if_pos hfull] at hstep
      cases hstep
      exact ((h.push r).flushLocked (hguard w hwriter hseen hfull)).1
    · simp only [if_neg hfull] at hstep
      cases hstep
      exact h.push r

/-- Between sessions only a session can start. -/
theorem metadataStep_of_none {s s' : MetadataState} {action : MetadataAction}
    (hwriter : s.writer = none) (hstep : metadataStep dates exchange s action = some s') :
    ∃ ids : SessionIds, s' = { s with writer := some { ids } } := by
  cases action <;> simp [metadataStep, hwriter] at hstep
  exact ⟨_, hstep.symm⟩

theorem historyKept_step {s s' : MetadataState} {action : MetadataAction}
    (h : HistoryKept dates exchange s) (hguard : KeepsHistory dates exchange s action)
    (hstep : metadataStep dates exchange s action = some s') : HistoryKept dates exchange s' := by
  unfold HistoryKept at h
  cases hwriter : s.writer with
  | none =>
    rw [hwriter] at h
    obtain ⟨ids, rfl⟩ := metadataStep_of_none hwriter hstep
    exact ⟨h.toArchive, by simp, by simp, fun r hr => Or.inr (Or.inr (h.kept r hr))⟩
  | some w =>
    rw [hwriter] at h
    cases action with
    | start ids => simp [metadataStep, hwriter] at hstep
    | append r => exact historyKept_append hwriter h hguard hstep
    | flush =>
      simp only [metadataStep, hwriter] at hstep
      cases hstep
      exact (h.flushLocked (hguard w hwriter)).1
    | close =>
      simp only [metadataStep, hwriter] at hstep
      cases hstep
      obtain ⟨hflushed, hempty⟩ := h.flushLocked (hguard w hwriter)
      obtain ⟨harchive, hkept⟩ := hflushed.closeFile
      simp only [hempty, List.not_mem_nil, false_or] at hkept
      exact ⟨harchive, hkept⟩

/-- In every run whose flushes are safe, every written record is where it should be. -/
theorem historyKept_of_reaches {s : MetadataState}
    (h : Machine.Reaches (metadataMachine dates exchange) (KeepsHistory dates exchange) s) :
    HistoryKept dates exchange s := by
  refine h.invariant ?_ ?_
  · rintro s rfl
    exact ⟨⟨fun path hpath => absurd hpath (AList.notMem_empty path), by simp⟩, by simp⟩
  · intro s action s' hkept hguard hstep
    exact historyKept_step hkept hguard hstep

end

/-- In every run whose flushes open no file that exists and put no record below a later day
than its own, between sessions the reader returns the latest written record of the symbol up
to the time. -/
theorem scan_returns_latest {dates : IsoDates} {exchange : String} {s : MetadataState}
    (h : Machine.Reaches (metadataMachine dates exchange) (KeepsHistory dates exchange) s)
    (hclosed : s.writer = none) (symbol : String) (ts : Int) :
    IsLatest s.written symbol ts (scanExchangeMetadata dates exchange s.files symbol ts) := by
  have hrest : AtRest dates exchange s.files s.written := by
    have hkept := historyKept_of_reaches h
    unfold HistoryKept at hkept
    rw [hclosed] at hkept
    exact hkept
  unfold scanExchangeMetadata
  rw [scanDirs_eq (dirNames_pairwise hrest.dated ts)]
  apply (foldl_better_isLatest _ symbol ts).transfer
  · intro r hr
    obtain ⟨path, table, htable, hrow⟩ := exists_file_of_visible hr
    exact hrest.sound path table htable r hrow
  · intro r hr hts
    obtain ⟨path, table, day, hfiled⟩ := hrest.kept r hr
    exact hfiled.mem_visibleRows hts

/-- Dates as tally marks that sort like numbers: `1`, `11`, ... from the epoch on, and
`01`, `001`, ... before it. -/
def tallyText : Int → List Char
  | .ofNat n => List.replicate (n + 1) '1'
  | .negSucc n => List.replicate (n + 1) '0' ++ ['1']

theorem tallyText_lt {day day' : Int} (h : day < day') : tallyText day < tallyText day' := by
  cases day with
  | ofNat n =>
    cases day' with
    | ofNat m =>
      have hlt : n < m := Int.ofNat_lt.mp h
      obtain ⟨k, rfl⟩ := Nat.exists_eq_add_of_lt hlt
      show List.replicate (n + 1) '1' < List.replicate (n + k + 1 + 1) '1'
      rw [show n + k + 1 + 1 = n + 1 + (k + 1) by omega, List.replicate_add (n + 1)]
      have hright : ([] : List Char) < List.replicate (k + 1) '1' := List.nil_lt_cons _ _
      have hlonger : List.replicate (n + 1) '1' ++ [] <
          List.replicate (n + 1) '1' ++ List.replicate (k + 1) '1' := List.append_left_lt hright
      rw [List.append_nil] at hlonger
      exact hlonger
    | negSucc m =>
      have hnonneg : 0 ≤ Int.ofNat n := Int.natCast_nonneg n
      omega
  | negSucc n =>
    cases day' with
    | ofNat m =>
      show '0' :: (List.replicate n '0' ++ ['1']) < '1' :: List.replicate m '1'
      exact List.cons_lt_cons_iff.mpr (Or.inl (by decide))
    | negSucc m =>
      have hlt : m < n := by omega
      obtain ⟨k, rfl⟩ := Nat.exists_eq_add_of_lt hlt
      show List.replicate (m + k + 1 + 1) '0' ++ ['1'] < List.replicate (m + 1) '0' ++ ['1']
      rw [show m + k + 1 + 1 = m + 1 + (k + 1) by omega, List.replicate_add, List.append_assoc]
      apply List.append_left_lt
      exact List.cons_lt_cons_iff.mpr (Or.inl (by decide))

def tallyDates : IsoDates where
  isoformat day := String.ofList (tallyText day)
  fromisoformat text := some <|
    if text.toList.head? = some '0' then .negSucc (text.toList.length - 2)
    else .ofNat (text.toList.length - 1)
  fromisoformat_isoformat day := by
    cases day <;> simp [tallyText, List.replicate_succ]
  isoformat_lt day day' h := by
    rw [String.toList_ofList, String.toList_ofList]
    exact tallyText_lt h

/-- A record of the first day. -/
def firstDay (symbol : String) (fetchedAt : Int) : MetadataRecord where
  exchange := "bithumb"
  symbol := symbol
  fetchedDate := 0
  fetchedAt := fetchedAt
  sourceSnapshotId := "snap"
  dataHash := "hash"
  assetStatus := "1"
  accTradeValue24h := 1

/-- Sessions of two days. -/
def twoSessions : List MetadataAction :=
  [.start {}, .append (firstDay "KRW-BTC" 5), .append (firstDay "KRW-ETH" 6), .close,
    .start {}, .append { firstDay "KRW-BTC" 86400000007 with fetchedDate := 1 }, .close]

/-- The record of the second session is the latest one. -/
theorem scan_returns_second_session : ∃ s,
    (metadataMachine tallyDates "bithumb").guardedRun (KeepsHistory tallyDates "bithumb") {}
        twoSessions = some s ∧
      s.written.length = 3 ∧
      (scanExchangeMetadata tallyDates "bithumb" s.files "KRW-BTC" 86400000010).map
        MetadataRecord.fetchedAt = some 86400000007 ∧
      IsLatest s.written "KRW-BTC" 86400000010
        (scanExchangeMetadata tallyDates "bithumb" s.files "KRW-BTC" 86400000010) := by
  have hrun : ((metadataMachine tallyDates "bithumb").guardedRun
      (KeepsHistory tallyDates "bithumb") {} twoSessions).map (fun s =>
        (s.writer.isNone, s.written.length,
          (scanExchangeMetadata tallyDates "bithumb" s.files "KRW-BTC" 86400000010).map
            MetadataRecord.fetchedAt)) = some (true, 3, some 86400000007) := by
    decide +kernel
  obtain ⟨s, hs, heq⟩ := Option.map_eq_some_iff.mp hrun
  obtain ⟨hclosed, hrest⟩ := Prod.mk.inj heq
  obtain ⟨hlength, hscan⟩ := Prod.mk.inj hrest
  exact ⟨s, hs, hlength, hscan, scan_returns_latest
    (Machine.reaches_of_guardedRun (.init rfl) hs) (Option.isNone_iff_eq_none.mp hclosed) _ _⟩

/-- A second session of the day writes over the file of the first: its record is gone. -/
theorem scan_misses_overwritten_record :
    ((metadataMachine tallyDates "bithumb").run {}
        [.start {}, .append (firstDay "KRW-BTC" 5), .close,
          .start {}, .append (firstDay "KRW-ETH" 6), .close]).map
      (fun s => (s.writer.isNone, s.written,
        scanExchangeMetadata tallyDates "bithumb" s.files "KRW-BTC" 10)) =
    some (true, [firstDay "KRW-BTC" 5, firstDay "KRW-ETH" 6], none) := by
  decide +kernel

end MctraderData.Storage
