import MctraderData.Compactor.Layout
import MctraderData.Lib.Civil

/-!
# mctrader-data — WAL segments on disk

Model of `wal/segment.py` and `compactor/gc.py`. The state of a segment is in its file
name: `.ndjson` is being written, `.ndjson.sealed` waits for the compactor, and a marker
`.ndjson.sealed.compacted` beside a sealed segment says that its L1 file was written.
The name of a segment has its window and its node, and nothing that tells two segments
of one window apart.
-/

namespace MctraderData.Wal

open Lib
open Nas
open Compactor (hasPrefix hasSuffix hasSuffix_append)

/-! ## names -/

/-- `dt.strftime("%Y%m%dT%H%M%SZ")` of the time `ts`, in seconds since the epoch. -/
def tsStr (ts : Nat) : String := String.ofList (utcStamp ts)

/-- `dt.strftime("%Y-%m-%d")` -/
def dateOf (ts : Nat) : String := String.ofList (dateText ['-'] (ts / 86400))

theorem tsStr_injective : Function.Injective tsStr := by
  intro ts ts' h
  exact utcStamp_injective (String.ofList_injective h)

theorem dash_notMem_tsStr (ts : Nat) : '-' ∉ (tsStr ts).toList := by
  rw [tsStr, String.toList_ofList]
  exact dash_notMem_utcStamp ts

/-- `segment_index` -/
def segmentIndex (ts segmentSeconds : Nat) : Nat := ts / segmentSeconds

/-- One node writing one stream. -/
structure Feed where
  exchange : String
  channel : String
  symbol : String
  nodeId : String
deriving DecidableEq

/-- `active_segment_path` for the window that starts at `startTs`, in the directory of
its own date. -/
def activeSegmentPath (feed : Feed) (startTs : Nat) : Path :=
  ["wal", feed.exchange, feed.channel, feed.symbol, dateOf startTs,
    "segment-" ++ tsStr startTs ++ "-" ++ feed.nodeId ++ ".ndjson"]

/-- `Path(str(path) + suffix)` -/
def withSuffix (path : Path) (suffix : String) : Path :=
  path.dropLast ++ [path.getLastD "" ++ suffix]

/-- `seal_path` -/
def sealPath (active : Path) : Path := withSuffix active ".sealed"

/-- `compacted_path` -/
def compactedPath (sealedPath : Path) : Path := withSuffix sealedPath ".compacted"

def removeSuffix (suffix name : String) : Option String :=
  if hasSuffix suffix name then
    some (String.ofList (name.toList.take (name.toList.length - suffix.toList.length)))
  else none

/-- `_strip_segment_suffixes`: the longest suffix first. -/
def stripSegmentSuffixes (name : String) : String :=
  (((removeSuffix ".ndjson.sealed.compacted" name).or (removeSuffix ".ndjson.sealed" name)).or
    (removeSuffix ".ndjson" name)).getD name

/-- The text before and after the first `-`. -/
def splitDash : List Char → Option (List Char × List Char)
  | [] => none
  | c :: rest => if c = '-' then some ([], rest) else (splitDash rest).map fun p => (c :: p.1, p.2)

/-- `base.split("-", 2)` when it gives three parts. -/
def splitSegmentName (name : String) : Option (String × String × String) := do
  let (head, rest) ← splitDash (stripSegmentSuffixes name).toList
  let (ts, node) ← splitDash rest
  pure (String.ofList head, String.ofList ts, String.ofList node)

/-- `parse_node_id_from_segment` -/
def parseNodeIdFromSegment (name : String) : String :=
  match splitSegmentName name with
  | some (_, _, node) => node
  | none => "DEFAULT"

/-- `parse_ts_from_segment`; `none` is the `ValueError`. -/
def parseTsFromSegment (name : String) : Option String :=
  match splitSegmentName name with
  | some (head, ts, _) => if head = "segment" then some ts else none
  | none => none

/-! ## scan_sealed and run_gc -/

variable {C : Type} [Blob C]

/-- The order of `Path` objects: component by component. -/
def pathLe : Path → Path → Bool
  | [], _ => true
  | _ :: _, [] => false
  | a :: p, b :: q => decide (a.toList < b.toList) || (a == b && pathLe p q)

/-- `rglob("*<suffix>")` below `wal/` -/
def rglobWal (w : World C) (suffix : String) : List Path :=
  w.files.keys.filter fun path =>
    path.head? == some "wal" && decide (2 ≤ path.length) && hasSuffix suffix (path.getLastD "")

/-- `scan_sealed`: the sealed segments without a marker. -/
def scanSealed (w : World C) : List Path :=
  ((rglobWal w ".ndjson.sealed").insertionSort (pathLe · ·)).filter fun path =>
    (w.files.lookup (compactedPath path)).isNone

/-- `str(compacted)[: -len(".compacted")]` -/
def sealedOf (compacted : Path) : Path :=
  compacted.dropLast ++ [(removeSuffix ".compacted" (compacted.getLastD "")).getD ""]

/-- `sealed.unlink()` if the segment is still there. -/
def unlinkIfExists (path : Path) : Prog C Unit := do
  if ((← get).files.lookup path).isSome then unlink path else pure ()

/-- One expired marker: its segment goes first, and a failure keeps what is left. -/
def gcOne (compacted : Path) : Prog C Unit :=
  tryCatch (do
    unlinkIfExists (sealedOf compacted)
    unlink compacted) fun _ => pure ()

/-- `run_gc`; `expired` says which markers are at least `GRACE_SECONDS` old. -/
def runGc (expired : Path → Bool) : Prog C Unit := do
  let w ← get
  Eff.forEach ((rglobWal w ".ndjson.sealed.compacted").filter expired) gcOne

/-! ## what the names tell apart -/

theorem removeSuffix_append (stem suffix : String) :
    removeSuffix suffix (stem ++ suffix) = some stem := by
  unfold removeSuffix
  rw [if_pos (hasSuffix_append stem suffix)]
  simp

/-- The last three characters, from the end. -/
def ending (name : String) : List Char := name.toList.reverse.take 3

theorem ending_of_hasSuffix {suffix name : String} (h : hasSuffix suffix name = true)
    (hlen : 3 ≤ suffix.toList.length) : ending name = ending suffix := by
  obtain ⟨stem, hstem⟩ := List.isSuffixOf_iff_suffix.mp h
  unfold ending
  rw [← hstem, List.reverse_append, List.take_append_of_le_length (by simpa using hlen)]

/-- The states of a segment, as its name shows them. -/
def segmentStates : List String := [".ndjson", ".ndjson.sealed", ".ndjson.sealed.compacted"]

theorem segmentStates_length : ∀ s ∈ segmentStates, 3 ≤ s.toList.length := by decide

theorem segmentStates_ending :
    ∀ s ∈ segmentStates, ∀ s' ∈ segmentStates, ending s = ending s' → s = s' := by decide

section

variable (feed : Feed) (startTs : Nat)

/-- The name of a segment, without its state. -/
def segmentStem : String := "segment-" ++ tsStr startTs ++ "-" ++ feed.nodeId

def segmentDir : Path := ["wal", feed.exchange, feed.channel, feed.symbol, dateOf startTs]

/-- The file of a segment in one state. -/
def segmentFile (state : String) : Path :=
  segmentDir feed startTs ++ [segmentStem feed startTs ++ state]

/-- The sealed segment of a window. -/
def sealedSegment : Path := sealPath (activeSegmentPath feed startTs)

/-- Its marker. -/
def segmentMarker : Path := compactedPath (sealedSegment feed startTs)

theorem activeSegmentPath_eq :
    activeSegmentPath feed startTs = segmentFile feed startTs ".ndjson" :=
  rfl

theorem withSuffix_segmentFile (state suffix : String) :
    withSuffix (segmentFile feed startTs state) suffix =
      segmentFile feed startTs (state ++ suffix) := by
  unfold withSuffix segmentFile
  rw [List.dropLast_concat, List.getLastD_concat, String.append_assoc]

theorem sealedSegment_eq :
    sealedSegment feed startTs = segmentFile feed startTs ".ndjson.sealed" :=
  withSuffix_segmentFile feed startTs ".ndjson" ".sealed"

theorem segmentMarker_eq :
    segmentMarker feed startTs = segmentFile feed startTs ".ndjson.sealed.compacted" := by
  unfold segmentMarker
  rw [sealedSegment_eq]
  exact withSuffix_segmentFile feed startTs ".ndjson.sealed" ".compacted"

end

variable {feed : Feed} {ts ts' : Nat}

theorem segmentStem_injective (h : segmentStem feed ts = segmentStem feed ts') :
    ts = ts' := by
  unfold segmentStem at h
  rw [String.append_left_inj, String.append_left_inj, String.append_right_inj] at h
  exact tsStr_injective h

/-- The name of a segment shows no other state than its own. -/
theorem hasSuffix_segmentFile {s s' : String} (hs : s ∈ segmentStates) (hs' : s' ∈ segmentStates)
    (h : hasSuffix s' ((segmentFile feed ts s).getLastD "") = true) : s = s' := by
  refine segmentStates_ending s hs s' hs' ?_
  rw [← ending_of_hasSuffix h (segmentStates_length s' hs')]
  exact (ending_of_hasSuffix (hasSuffix_append _ s) (segmentStates_length s hs)).symm

/-- Equal names mean equal windows and equal states. -/
theorem segmentFile_inj {s s' : String} (hs : s ∈ segmentStates) (hs' : s' ∈ segmentStates)
    (h : segmentFile feed ts s = segmentFile feed ts' s') : ts = ts' ∧ s = s' := by
  have hname : segmentStem feed ts ++ s = segmentStem feed ts' ++ s' := by
    have hlast := congrArg (List.getLastD · "") h
    simpa [segmentFile] using hlast
  have hsuffix : hasSuffix s' ((segmentFile feed ts s).getLastD "") = true := by
    rw [segmentFile, List.getLastD_concat, hname]
    exact hasSuffix_append _ s'
  cases hasSuffix_segmentFile hs hs' hsuffix
  exact ⟨segmentStem_injective (String.append_left_inj s |>.mp hname), rfl⟩

theorem sealedOf_segmentMarker :
    sealedOf (segmentMarker feed ts) = sealedSegment feed ts := by
  have hname : segmentStem feed ts ++ ".ndjson.sealed.compacted" =
      segmentStem feed ts ++ ".ndjson.sealed" ++ ".compacted" := by
    rw [String.append_assoc]
    rfl
  unfold sealedOf
  rw [segmentMarker_eq, segmentFile, List.dropLast_concat, List.getLastD_concat, hname,
    removeSuffix_append, sealedSegment_eq]
  rfl

theorem splitDash_append {s : List Char} (h : '-' ∉ s) (rest : List Char) :
    splitDash (s ++ '-' :: rest) = some (s, rest) := by
  induction s with
  | nil => rfl
  | cons c s ih =>
    rw [List.mem_cons, not_or] at h
    rw [List.cons_append, splitDash, if_neg (Ne.symm h.1), ih h.2]
    rfl

/-- Of the three suffixes only its own is stripped, whatever the node id ends in. -/
theorem stripSegmentSuffixes_append {s : String} (hs : s ∈ segmentStates) (stem : String) :
    stripSegmentSuffixes (stem ++ s) = stem := by
  have hother : ∀ s' ∈ segmentStates, s' ≠ s → removeSuffix s' (stem ++ s) = none := by
    intro s' hs' hne
    refine if_neg fun h => hne (segmentStates_ending s' hs' s hs ?_)
    rw [← ending_of_hasSuffix h (segmentStates_length s' hs')]
    exact ending_of_hasSuffix (hasSuffix_append stem s) (segmentStates_length s hs)
  have hown := removeSuffix_append stem s
  unfold stripSegmentSuffixes
  simp only [segmentStates, List.mem_cons, List.not_mem_nil, or_false] at hs
  rcases hs with rfl | rfl | rfl
  · rw [hother ".ndjson.sealed.compacted" (by decide) (by decide),
      hother ".ndjson.sealed" (by decide) (by decide), hown]
    rfl
  · rw [hother ".ndjson.sealed.compacted" (by decide) (by decide), hown]
    rfl
  · rw [hown]
    rfl

/-- The first two dashes of a stem are its own: a stamp has none. -/
theorem splitSegmentName_segmentFile {s : String} (hs : s ∈ segmentStates) :
    splitSegmentName ((segmentFile feed ts s).getLastD "") =
      some ("segment", tsStr ts, feed.nodeId) := by
  have hstem : (segmentStem feed ts).toList =
      "segment".toList ++ '-' :: ((tsStr ts).toList ++ '-' :: feed.nodeId.toList) := by
    simp [segmentStem]
  unfold splitSegmentName
  rw [segmentFile, List.getLastD_concat, stripSegmentSuffixes_append hs, hstem,
    splitDash_append (by decide)]
  simp only [Option.bind_eq_bind, Option.bind_some, splitDash_append (dash_notMem_tsStr ts),
    Option.pure_def, String.ofList_toList]

/-- The window of a sealed segment is read back from its name. -/
theorem parseTs_sealedSegment :
    parseTsFromSegment ((sealedSegment feed ts).getLastD "") = some (tsStr ts) := by
  rw [sealedSegment_eq]
  unfold parseTsFromSegment
  rw [splitSegmentName_segmentFile (by decide)]
  rfl

/-- The names of a segment, in its three states. -/
def segmentNames (feed : Feed) (startTs : Nat) : List String :=
  [activeSegmentPath feed startTs, sealedSegment feed startTs,
    segmentMarker feed startTs].map fun path => path.getLastD ""

theorem splitSegmentName_of_mem {name : String} (h : name ∈ segmentNames feed ts) :
    splitSegmentName name = some ("segment", tsStr ts, feed.nodeId) := by
  simp only [segmentNames, activeSegmentPath_eq, sealedSegment_eq, segmentMarker_eq,
    List.map_cons, List.map_nil, List.mem_cons, List.not_mem_nil, or_false] at h
  rcases h with rfl | rfl | rfl
  · exact splitSegmentName_segmentFile (by decide)
  · exact splitSegmentName_segmentFile (by decide)
  · exact splitSegmentName_segmentFile (by decide)

/-- `active_segment_path` for an index: `datetime` ends with the year 9999. -/
def segmentPathOf (feed : Feed) (startIdx segmentSeconds : Nat) : Except Exn Path :=
  let startTs := startIdx * segmentSeconds
  if (yearDay (startTs / 86400)).1 ≤ 9999 then .ok (activeSegmentPath feed startTs)
  else .error .valueError

/-- The name of a segment gives back its node and its window, in every state and whatever the
node id is, and no other segment has it. -/
theorem segment_name_codec {segmentSeconds : Nat} (hpos : 0 < segmentSeconds) (feed : Feed)
    (idx : Nat) (hyear : (yearDay (idx * segmentSeconds / 86400)).1 ≤ 9999) :
    segmentPathOf feed idx segmentSeconds = .ok (activeSegmentPath feed (idx * segmentSeconds)) ∧
      ∀ name ∈ segmentNames feed (idx * segmentSeconds),
        parseNodeIdFromSegment name = feed.nodeId ∧
        parseTsFromSegment name = some (tsStr (idx * segmentSeconds)) ∧
        ∀ feed' idx', name ∈ segmentNames feed' (idx' * segmentSeconds) →
          idx' = idx ∧ feed'.nodeId = feed.nodeId := by
  refine ⟨if_pos hyear, fun name hname => ?_⟩
  have hsplit := splitSegmentName_of_mem hname
  refine ⟨?_, ?_, fun feed' idx' hname' => ?_⟩
  · rw [parseNodeIdFromSegment, hsplit]
  · rw [parseTsFromSegment, hsplit]
    rfl
  · have hsame := (splitSegmentName_of_mem hname').symm.trans hsplit
    simp only [Option.some.injEq, Prod.mk.injEq, true_and] at hsame
    exact ⟨Nat.eq_of_mul_eq_mul_right hpos (tsStr_injective hsame.1), hsame.2⟩

/-- A segment of 2026-02-28, of a node whose id has the separator and a suffix in it. -/
theorem segment_name_codec_suffixed_node :
    let feed : Feed := ⟨"bithumb", "transaction", "BTC", "a-b.ndjson"⟩
    let name := (segmentMarker feed (5907743 * 300)).getLastD ""
    name = "segment-20260228T235500Z-a-b.ndjson.ndjson.sealed.compacted" ∧
      parseNodeIdFromSegment name = "a-b.ndjson" ∧
      parseTsFromSegment name = some "20260228T235500Z" := by
  have hstamp : tsStr (5907743 * 300) = "20260228T235500Z" := by decide +kernel
  obtain ⟨-, hcodec⟩ := segment_name_codec (by decide : 0 < 300)
    ⟨"bithumb", "transaction", "BTC", "a-b.ndjson"⟩ 5907743 (by decide +kernel)
  obtain ⟨hnode, hts, -⟩ := hcodec _ (.tail _ (.tail _ (.head _)))
  exact ⟨by decide +kernel, hnode, hts.trans (congrArg some hstamp)⟩

end MctraderData.Wal
