import Mathlib.Data.List.Dedup
import Mathlib.Data.List.Infix
import MctraderData.Compactor.Layout

/-!
# mctrader-data — the invariant harness

Model of `nas_migration/invariant_harness.py`: `verify` compares a local partition
directory with the objects under a NAS prefix in eight checks and reports the first that
fails, in a fixed order of priority.

The checks work on texts where the rest of the code works on components. The listing of a
partition takes every key whose *text* starts with the prefix, siblings such as `node=AB`
next to `node=A` included, while the probe of the ambiguity check appends a `/`. The
schema version is what a regular expression finds first in the text of a path.

What pyarrow reads from a file is a parameter. Log lines, metrics and latencies are left
out; a directory whose own name ends in `.parquet` is not a segment here.
-/

namespace MctraderData.Harness

open Lib
open Nas
open Compactor (hasSuffix)

/-! ## results -/

/-- The columns of a parquet file: their names and the `str` of their types. -/
abbrev Schema := List (String × String)

def Schema.names (schema : Schema) : List String := schema.map Prod.fst

/-- `PerInvariantResult.status` -/
inductive Verdict where
  | pass
  | fail
deriving DecidableEq, Repr

def Verdict.ofBool : Bool → Verdict
  | true => .pass
  | false => .fail

/-- `measured_local` and `measured_nas` -/
inductive Measured where
  | text (value : String)
  | count (value : Int)
  | names (value : List String)
deriving DecidableEq, Repr

structure PerInvariantResult where
  invariantName : String
  status : Verdict
  measuredLocal : Measured
  measuredNas : Measured
  mismatchFiles : List String := []
deriving DecidableEq, Repr

/-- `InvariantResult.status` -/
inductive InvariantStatus where
  | allPass
  | sha256Fail
  | objectCountFail
  | rowCountFail
  | columnCountFail
  | columnOrderFail
  | dtypeFail
  | schemaVersionFail
  | ambiguityFail
deriving DecidableEq, Repr

/-- `per_invariant_results` -/
structure PerResults where
  sha256 : PerInvariantResult
  objectCount : PerInvariantResult
  rowCount : PerInvariantResult
  columnCount : PerInvariantResult
  columnOrder : PerInvariantResult
  dtype : PerInvariantResult
  schemaVersion : PerInvariantResult
  ambiguity : PerInvariantResult

/-- The first failed check in the order of priority. -/
def PerResults.status (r : PerResults) : InvariantStatus :=
  if r.objectCount.status = .fail then .objectCountFail
  else if r.sha256.status = .fail then .sha256Fail
  else if r.rowCount.status = .fail then .rowCountFail
  else if r.columnCount.status = .fail then .columnCountFail
  else if r.columnOrder.status = .fail then .columnOrderFail
  else if r.dtype.status = .fail then .dtypeFail
  else if r.schemaVersion.status = .fail then .schemaVersionFail
  else if r.ambiguity.status = .fail then .ambiguityFail
  else .allPass

structure InvariantResult where
  status : InvariantStatus
  perInvariantResults : PerResults
  localPartition : Path
  nasPartition : Key

/-! ## schema versions -/

def versionLabel : List Char := "schema_version=".toList

/-- `schema_version=([^/\\]+)` at the front of a text. -/
def versionAt (text : List Char) : Option (List Char) :=
  if versionLabel.isPrefixOf text then
    match (text.drop versionLabel.length).takeWhile fun c => c != '/' && c != '\\' with
    | [] => none
    | c :: rest => some (c :: rest)
  else none

/-- `_extract_schema_version`: the leftmost match. -/
def extractSchemaVersion : List Char → Option (List Char)
  | [] => none
  | c :: rest =>
    match versionAt (c :: rest) with
    | some v => some v
    | none => extractSchemaVersion rest

/-- One side of the schema_version check. -/
def hasVersion (versions : List String) (text : List Char) : Bool :=
  match extractSchemaVersion text with
  | some v => decide (String.ofList v ∈ versions)
  | none => versions.any fun v => decide (versionLabel ++ v.toList <:+: text)

/-- `ADR009_EXPECTED_COLUMN_NAMES` -/
def adr009ColumnNames : List String :=
  ["schema_version", "exchange", "symbol", "date", "ts", "open", "high", "low", "close",
    "volume", "vwap", "trade_count", "bid_count", "ask_count", "source_provenance",
    "ingestion_ts"]

/-- `ADR009_CHANNEL_SCHEMA_MATRIX` -/
def adr009ChannelSchemaMatrix (version : String) : Option (Int × List String) :=
  match version with
  | "orderbook_snapshot.v1" => some (11,
      ["ts_utc", "received_at", "exchange", "symbol", "baseline_seq", "side", "level", "price",
        "quantity", "payload_hash", "raw_json"])
  | "tick.v1" => some (8,
      ["ts_utc", "received_at", "exchange", "symbol", "price", "quantity", "side", "raw_json"])
  | "tick.v1.1" => some (11,
      ["ts_utc", "received_at", "exchange", "symbol", "price", "quantity", "side", "raw_json",
        "ingest_seq", "payload_hash", "validation_status"])
  | "ohlcv.v1" => some (16, adr009ColumnNames)
  | _ => none

/-! ## the harness -/

variable {C : Type} [Blob C]

structure InvariantHarness (C : Type) where
  /-- The text in front of every local path. -/
  localRoot : String
  expectedColumnCount : Option Int := none
  expectedColumnNames : Option (List String) := none
  /-- A single version is a set of one. -/
  expectedSchemaVersion : List String := ["v1"]
  partitionNormalization : Bool := false
  /-- `_read_parquet_meta`: schema and row count, `none` where pyarrow raises. -/
  readParquetMeta : C → Option (Schema × Nat)

namespace InvariantHarness

variable (h : InvariantHarness C)

/-- `_expected_column_names_override` -/
def columnNamesOverride : Option (List String) :=
  match h.expectedColumnCount, h.expectedColumnNames with
  | some _, none => some adr009ColumnNames
  | _, names => names

/-- `str(path).replace("\\", "/")` -/
def pathText (path : Path) : List Char :=
  (h.localRoot.toList ++ '/' :: keyText path).map fun c => if c = '\\' then '/' else c

def checkSchemaVersion (localPartition : Path) (nasPartition : Key) : PerInvariantResult :=
  let localText := h.pathText localPartition
  let nasText := keyText nasPartition
  { invariantName := "schema_version"
    status := .ofBool (hasVersion h.expectedSchemaVersion localText &&
      hasVersion h.expectedSchemaVersion nasText)
    measuredLocal := .text (((extractSchemaVersion localText).map String.ofList).getD "missing")
    measuredNas := .text (((extractSchemaVersion nasText).map String.ofList).getD "missing") }

/-- `_resolve_expected_column_count` -/
def resolveExpectedColumnCount (file : Path) : Option Int × Option (List String) :=
  match h.expectedColumnCount with
  | some n => (some n, h.columnNamesOverride)
  | none =>
    match extractSchemaVersion (h.pathText file) with
    | none => (none, none)
    | some v =>
      match adr009ChannelSchemaMatrix (String.ofList v) with
      | none => (none, none)
      | some (n, names) => (some n, some names)

/-- `_normalize_nas_partition`: a prefix without `node=` is used as it is, too. -/
def normalizeNasPartition (nasPartition : Key) : Key :=
  if "node=".toList <:+: keyText nasPartition then nasPartition else nasPartition

end InvariantHarness

/-- `path.name`, and `key.split("/")[-1]` -/
def basename (path : List String) : String := path.getLastD ""

/-- `_check_object_count` -/
def checkObjectCount (localFiles : List Path) (nasObjects : List Key) : PerInvariantResult :=
  let localNames := localFiles.map basename
  let nasNames := nasObjects.map basename
  let passed := decide (localFiles.length = nasObjects.length)
  { invariantName := "object_count"
    status := .ofBool passed
    measuredLocal := .count localFiles.length
    measuredNas := .count nasObjects.length
    mismatchFiles :=
      if passed then []
      else ((localNames ++ nasNames).dedup.filter fun name =>
        !(decide (name ∈ localNames) && decide (name ∈ nasNames))).insertionSort
          fun a b => a.toList ≤ b.toList }

/-- `schema.field(name).type`: the first column of that name. -/
def Schema.fieldType (schema : Schema) (name : String) : Option String :=
  (schema.find? fun column => column.1 == name).map Prod.snd

/-- `_dtype_identity` -/
def dtypeIdentity (localSchema nasSchema : Schema) : Bool :=
  decide (localSchema.names = nasSchema.names) &&
    localSchema.names.all fun name =>
      match localSchema.fieldType name, nasSchema.fieldType name with
      | some localType, some nasType => decide (localType = nasType)
      | _, _ => false

/-- The five mismatch lists of the loop over the files. -/
structure Mismatches where
  sha256 : List String := []
  rowCount : List String := []
  columnCount : List String := []
  columnOrder : List String := []
  dtype : List String := []
deriving DecidableEq, Repr

def Mismatches.append (m n : Mismatches) : Mismatches where
  sha256 := m.sha256 ++ n.sha256
  rowCount := m.rowCount ++ n.rowCount
  columnCount := m.columnCount ++ n.columnCount
  columnOrder := m.columnOrder ++ n.columnOrder
  dtype := m.dtype ++ n.dtype

/-- `name` is appended unless the check holds. -/
def mismatchUnless (holds : Bool) (name : String) : List String := if holds then [] else [name]

namespace InvariantHarness

variable (h : InvariantHarness C)

/-- What one file adds to the mismatch lists once both sides are read. -/
def compareBytes (name : String) (localFile : Path) (localData nasData : C) : Mismatches :=
  let sha256 := mismatchUnless (decide (Blob.sha256 localData = Blob.sha256 nasData)) name
  match h.readParquetMeta localData, h.readParquetMeta nasData with
  | some (localSchema, localRows), some (nasSchema, nasRows) =>
    let expected := h.resolveExpectedColumnCount localFile
    { sha256 := sha256
      rowCount := mismatchUnless (decide (localRows = nasRows)) name
      columnCount :=
        match expected.1 with
        | none => [name]
        | some n => mismatchUnless (decide ((localSchema.names.length : Int) = n) &&
            decide ((nasSchema.names.length : Int) = n)) name
      columnOrder :=
        match expected.2 with
        | none => [name]
        | some names => mismatchUnless (decide (localSchema.names = names) &&
            decide (nasSchema.names = names)) name
      dtype := mismatchUnless (dtypeIdentity localSchema nasSchema) name }
  | _, _ => ⟨sha256, [name], [name], [name], [name]⟩

/-- One turn of the loop; a failed download counts against all five checks. -/
def compareFile (name : String) (localFile : Path) (nasKey : Key) : Prog C Mismatches := do
  match ← Eff.orNone (clientGetObject nasKey) with
  | none => pure ⟨[name], [name], [name], [name], [name]⟩
  | some nasData =>
    let localData ← readFile localFile
    pure (h.compareBytes name localFile localData nasData)

/-- `{f.name: f for f in files}[name]`: the last file of a name stays. -/
def named (files : List (List String)) (name : String) : Option (List String) :=
  (files.filter fun file => basename file == name).getLast?

/-- `sorted(set(local_basenames) & set(nas_basenames))` -/
def commonBasenames (localFiles : List Path) (nasObjects : List Key) : List String :=
  (((localFiles.map basename).dedup).filter fun name =>
    decide (name ∈ nasObjects.map basename)).insertionSort fun a b => a.toList ≤ b.toList

/-- The turn of a common basename. -/
def compareNamed (localFiles : List Path) (nasObjects : List Key) (name : String) :
    Prog C Mismatches :=
  match named localFiles name, named nasObjects name with
  | some localFile, some nasKey => h.compareFile name localFile nasKey
  | _, _ => pure {}

/-- The loop over the common basenames. -/
def compareFiles (localFiles : List Path) (nasObjects : List Key) :
    List String → Prog C Mismatches
  | [] => pure {}
  | name :: rest => do
    let m ← h.compareNamed localFiles nasObjects name
    let n ← compareFiles localFiles nasObjects rest
    pure (m.append n)

/-- The prefix the ambiguity probe lists: the partition and a slash. -/
def probePrefix (nasPartition : Key) : List Char :=
  if (keyText nasPartition).getLast? = some '/' then keyText nasPartition
  else keyText nasPartition ++ ['/']

/-- `_check_nas_partition_exists`: an error counts as absent. -/
def checkNasPartitionExists (nasPartition : Key) : Prog C Bool := do
  match ← Eff.orNone (clientListText (probePrefix nasPartition)) with
  | some keys => pure (!keys.isEmpty)
  | none => pure false

/-- `_check_ambiguity` -/
def checkAmbiguity (localPartition : Path) (nasPartition : Key) (localFiles : List Path) :
    Prog C PerInvariantResult := do
  if localFiles.isEmpty then
    pure ⟨"ambiguity", .pass, .text "empty", .text "unknown", []⟩
  else if ← checkNasPartitionExists nasPartition then
    pure ⟨"ambiguity", .fail, .count localFiles.length, .text "exists",
      [String.ofList (h.localRoot.toList ++ '/' :: keyText localPartition)]⟩
  else
    pure ⟨"ambiguity", .pass, .count localFiles.length, .text "absent", []⟩

/-- One of the five per-file results. -/
def fileResult (name : String) (measuredLocal measuredNas : Measured)
    (mismatches : List String) : PerInvariantResult :=
  ⟨name, .ofBool mismatches.isEmpty, measuredLocal, measuredNas, mismatches⟩

/-- The eight results. -/
def perResults (localPartition : Path) (nasPartition : Key) (localFiles : List Path)
    (nasObjects : List Key) (m : Mismatches) (ambiguity : PerInvariantResult) : PerResults :=
  let localCount := .count localFiles.length
  let nasCount := .count nasObjects.length
  let columnCount :=
    match h.expectedColumnCount with
    | some n => .count n
    | none => .text "lookup"
  let columnNames :=
    match h.columnNamesOverride with
    | some (name :: rest) => .names (name :: rest)
    | _ => .text "lookup"
  { sha256 := fileResult "sha256" localCount nasCount m.sha256
    objectCount := checkObjectCount localFiles nasObjects
    rowCount := fileResult "row_count" localCount nasCount m.rowCount
    columnCount := fileResult "column_count" columnCount columnCount m.columnCount
    columnOrder := fileResult "column_order" columnNames columnNames m.columnOrder
    dtype := fileResult "dtype" (.text "identity") (.text "identity") m.dtype
    schemaVersion := h.checkSchemaVersion localPartition nasPartition
    ambiguity := ambiguity }

end InvariantHarness

/-- `sorted(local_partition.glob("*.parquet"))` -/
def globParquet (w : World C) (dir : Path) : List Path :=
  sortKeys (w.files.keys.filter fun path =>
    decide (path.dropLast = dir) && hasSuffix ".parquet" (basename path))

/-- The objects to compare with: those given, or the listing of the partition. -/
def gatherObjects (nasPartition : Key) : Option (List Key) → Prog C (List Key)
  | some keys => pure keys
  | none => clientListText (keyText nasPartition)

/-- `verify`. Without `local_files` and `nas_objects` it is the partition mode, with both
the per-file mode. -/
def InvariantHarness.verify (h : InvariantHarness C) (localPartition : Path) (nasPartition : Key)
    (localFiles : Option (List Path)) (nasObjects : Option (List Key)) :
    Prog C InvariantResult := do
  let w ← get
  let localFiles := localFiles.getD (globParquet w localPartition)
  let nasPartition :=
    if h.partitionNormalization then normalizeNasPartition nasPartition else nasPartition
  let nasObjects ← gatherObjects nasPartition nasObjects
  let m ← h.compareFiles localFiles nasObjects (commonBasenames localFiles nasObjects)
  let ambiguity ← h.checkAmbiguity localPartition nasPartition localFiles
  let r := h.perResults localPartition nasPartition localFiles nasObjects m ambiguity
  pure ⟨r.status, r, localPartition, nasPartition⟩

end MctraderData.Harness
