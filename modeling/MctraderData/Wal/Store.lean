import MctraderData.Compactor.Replication
import MctraderData.Lib.SegmentLog
import MctraderData.Nas.Frame

/-!
# mctrader-data — the disk as a compacted log

The files of one window of one feed (active segment, sealed segment, marker, L1 file) are
a slot of `Lib.SegmentLog`: `Shows w slots` relates the disk and the bucket to a family of
slots, one per window. The archived batch of a slot is not on disk; it is the batch of
records the L1 file was converted from.

Each operation of the writer, the compactor and the garbage collector changes the files of
one window only (`Changes`), and takes its slot through one step.
-/

namespace MctraderData.Wal

open Lib
open Nas
open Compactor
open Function (update)

/-! ## the files of a window -/

section

variable {R : Type} {env : Env R} {feed : Feed} {ts ts' : Nat}
  {target target' : L1Target}

/-- The L1 file of a window carries the window in its name. -/
theorem l1Target_window (h : l1Target env (sealedSegment feed ts) = .ok target) :
    target.file = "part-" ++ tsStr ts ++ "-" ++ target.runId ++ ".parquet" := by
  obtain ⟨m, stamp, v, -, hstamp, -, rfl⟩ := l1Target_ok h
  rw [parseTs_sealedSegment, Option.some.injEq] at hstamp
  subst hstamp
  rfl

/-- Different windows have different L1 files. -/
theorem l1Path_inj (h : l1Target env (sealedSegment feed ts) = .ok target)
    (h' : l1Target env (sealedSegment feed ts') = .ok target')
    (hpath : target.path = target'.path) : ts = ts' := by
  have hfile : target.file = target'.file := by
    simpa [L1Target.path] using congrArg (List.getLastD · "") hpath
  rw [l1Target_window h, l1Target_window h'] at hfile
  have hsplit := congrArg (fun name : String => splitDash (name.toList.drop 5)) hfile
  have hname : ∀ ts runId, ("part-" ++ tsStr ts ++ "-" ++ runId ++ ".parquet").toList.drop 5 =
      (tsStr ts).toList ++ '-' :: (runId.toList ++ ".parquet".toList) := by
    intro ts runId
    simp
  simp only [hname, splitDash_append (dash_notMem_tsStr _), Option.some.injEq,
    Prod.mk.injEq] at hsplit
  exact tsStr_injective (String.toList_injective hsplit.1)

variable (env feed ts)

/-- The files that belong to a window. -/
def Own (path : Path) : Prop :=
  (∃ s ∈ segmentStates, path = segmentFile feed ts s) ∨
    ∃ target, l1Target env (sealedSegment feed ts) = .ok target ∧
      (path = target.path ∨ path = lineagePath target)

variable {env feed ts}

/-- The L1 file of a window and the lineage file beside it are not WAL files. -/
theorem head_ne_wal (h : l1Target env (sealedSegment feed ts) = .ok target) {path : Path}
    (hpath : path = target.path ∨ path = lineagePath target) : path.head? ≠ some "wal" := by
  rcases hpath with rfl | rfl
  · rw [L1Target.path, l1Path_head h]
    decide
  · rw [lineagePath, l1Path_head h]
    decide

/-- A segment of another window is not among them. -/
theorem not_own_segmentFile (hne : ts' ≠ ts) {s : String} (hs : s ∈ segmentStates) :
    ¬ Own env feed ts (segmentFile feed ts' s) := by
  rintro (⟨s', hs', heq⟩ | ⟨target, htarget, hpath⟩)
  · exact hne (segmentFile_inj hs hs' heq).1
  · exact head_ne_wal htarget hpath rfl

/-- Nor is the L1 file of another window. -/
theorem not_own_l1Path (hne : ts' ≠ ts)
    (h : l1Target env (sealedSegment feed ts') = .ok target') :
    ¬ Own env feed ts target'.path := by
  rintro (⟨s, -, heq⟩ | ⟨target, htarget, heq | heq⟩)
  · exact head_ne_wal h (Or.inl heq.symm) rfl
  · exact hne (l1Path_inj h htarget heq)
  · exact lineagePath_ne h heq.symm

theorem own_l1Path (h : l1Target env (sealedSegment feed ts) = .ok target) :
    Own env feed ts target.path :=
  Or.inr ⟨target, h, Or.inl rfl⟩

theorem segmentFile_ne {s s' : String} (hs : s ∈ segmentStates) (hs' : s' ∈ segmentStates)
    (hne : s ≠ s') : segmentFile feed ts s ≠ segmentFile feed ts' s' :=
  fun heq => hne (segmentFile_inj hs hs' heq).2

theorem active_ne_sealed :
    segmentFile feed ts ".ndjson" ≠ segmentFile feed ts ".ndjson.sealed" :=
  segmentFile_ne (by decide) (by decide) (by decide)

theorem active_ne_marker :
    segmentFile feed ts ".ndjson" ≠ segmentFile feed ts ".ndjson.sealed.compacted" :=
  segmentFile_ne (by decide) (by decide) (by decide)

theorem sealed_ne_marker :
    segmentFile feed ts ".ndjson.sealed" ≠
      segmentFile feed ts ".ndjson.sealed.compacted" :=
  segmentFile_ne (by decide) (by decide) (by decide)

variable (h : l1Target env (sealedSegment feed ts') = .ok target')
include h

theorem segmentFile_ne_lineage {s : String} : segmentFile feed ts s ≠ lineagePath target' :=
  fun heq => head_ne_wal h (Or.inr heq) rfl

theorem segmentFile_ne_l1Path (s : String) : segmentFile feed ts s ≠ target'.path :=
  fun heq => head_ne_wal h (Or.inl heq) rfl

end

/-! ## the view -/

/-- A file with these bytes exists locally, or on NAS under the key that is its path. -/
def Copy {C : Type} [Blob C] (w : World C) (path : Path) (c : C) : Prop :=
  w.files.lookup path = some c ∨ HoldsNas w path c

variable {W R : Type} [Timed R] [Blob (Content W R)] (env : Env R) (codec : Codec W R)
  (feed : Feed)

/-- The files of the window that starts at `ts` are what the slot says. -/
structure ShowsAt (w : World (Content W R)) (ts : Nat) (x : Slot W) : Prop where
  active : w.files.lookup (segmentFile feed ts ".ndjson") = x.active.map .ndjson
  sealed : w.files.lookup (segmentFile feed ts ".ndjson.sealed") = x.sealed.map .ndjson
  marked : (w.files.lookup (segmentFile feed ts ".ndjson.sealed.compacted")).isSome = x.marked
  absent : x.archived = none → ∀ target c,
    l1Target env (sealedSegment feed ts) = .ok target → ¬ Copy w target.path c
  present : ∀ records, x.archived = some records → ∃ target table,
    l1Target env (sealedSegment feed ts) = .ok target ∧
      l1Table env codec target records = .ok table ∧ Copy w target.path (.parquet table) ∧
      ∀ c, Copy w target.path c → c = .parquet table

/-- Every WAL file is a segment of this feed, or the marker of one. -/
def OnlyOurs (w : World (Content W R)) : Prop :=
  ∀ path, (w.files.lookup path).isSome → path.head? = some "wal" →
    ∃ ts, ∃ s ∈ segmentStates, path = segmentFile feed ts s

/-- The disk and the bucket, window by window. -/
structure Shows (w : World (Content W R)) (slots : Nat → Slot W) : Prop where
  window : ∀ ts, ShowsAt env codec feed w ts (slots ts)
  ours : OnlyOurs feed w
  truthful : Truthful w

/-- Only files and objects of the window `ts` differ. -/
structure Changes (ts : Nat) (w w' : World (Content W R)) : Prop where
  files : ∀ path, ¬ Own env feed ts path → w'.files.lookup path = w.files.lookup path
  nas : ∀ key, ¬ Own env feed ts key → w'.nas.lookup key = w.nas.lookup key
  truthful : Truthful w → Truthful w'

variable {env codec feed} {w w' : World (Content W R)} {ts ts' : Nat} {x : Slot W}
  {slots : Nat → Slot W}

omit [Timed R] in
theorem Changes.copy_iff (h : Changes env feed ts w w') {path : Path}
    (hpath : ¬ Own env feed ts path) (c : Content W R) : Copy w' path c ↔ Copy w path c := by
  unfold Copy HoldsNas
  rw [h.files path hpath, h.nas path hpath]

/-- **Frame.** The other windows are shown as before. -/
theorem ShowsAt.frame (hx : ShowsAt env codec feed w ts' x) (h : Changes env feed ts w w')
    (hne : ts' ≠ ts) : ShowsAt env codec feed w' ts' x where
  active := (h.files _ (not_own_segmentFile hne (by decide))).trans hx.active
  sealed := (h.files _ (not_own_segmentFile hne (by decide))).trans hx.sealed
  marked := by
    rw [h.files _ (not_own_segmentFile hne (by decide))]
    exact hx.marked
  absent hnone target c htarget := by
    rw [h.copy_iff (not_own_l1Path hne htarget)]
    exact hx.absent hnone target c htarget
  present records hsome := by
    obtain ⟨target, table, htarget, htable, hcopy, huniq⟩ := hx.present records hsome
    have hiff := h.copy_iff (not_own_l1Path hne htarget)
    refine ⟨target, table, htarget, htable, (hiff _).mpr hcopy, fun c hc => ?_⟩
    exact huniq c ((hiff c).mp hc)

/-- A change to one window takes the family to one with a new slot there. -/
theorem Shows.change (h : Shows env codec feed w slots) (hch : Changes env feed ts w w')
    (hx : ShowsAt env codec feed w' ts x) :
    Shows env codec feed w' (update slots ts x) where
  window ts' := by
    by_cases hne : ts' = ts
    · subst hne
      rw [Function.update_self]
      exact hx
    · rw [Function.update_of_ne hne]
      exact (h.window ts').frame hch hne
  ours path hsome hhead := by
    by_cases hown : Own env feed ts path
    · rcases hown with ⟨s, hs, heq⟩ | ⟨target, htarget, hpath⟩
      · exact ⟨ts, s, hs, heq⟩
      · exact absurd hhead (head_ne_wal htarget hpath)
    · rw [hch.files path hown] at hsome
      exact h.ours path hsome hhead
  truthful := hch.truthful h.truthful

/-! ## operations on the segments of a window -/

section

variable (h : Shows env codec feed w slots) (hnas : w'.nas = w.nas)
include h hnas

/-- A change of the segment files of one window. -/
theorem Shows.segments (hoff : ∀ path, (∀ s ∈ segmentStates, path ≠ segmentFile feed ts s) →
      (∀ target, l1Target env (sealedSegment feed ts) = .ok target →
      path ≠ lineagePath target) →
      w'.files.lookup path = w.files.lookup path) (harchived : x.archived = (slots ts).archived)
    (hactive : w'.files.lookup (segmentFile feed ts ".ndjson") = x.active.map .ndjson)
    (hsealed : w'.files.lookup (segmentFile feed ts ".ndjson.sealed") = x.sealed.map .ndjson)
    (hmarked : (w'.files.lookup (segmentFile feed ts ".ndjson.sealed.compacted")).isSome =
      x.marked) : Shows env codec feed w' (update slots ts x) := by
  have hch : Changes env feed ts w w' := by
    refine ⟨fun path hpath => ?_, fun key _ => ?_, fun hT key o s ho => ?_⟩
    · exact hoff path (fun s hs heq => hpath (Or.inl ⟨s, hs, heq⟩))
        fun target htarget heq => hpath (Or.inr ⟨target, htarget, Or.inr heq⟩)
    · rw [hnas]
    · rw [hnas] at ho
      exact hT key o s ho
  have hcopy : ∀ target c, l1Target env (sealedSegment feed ts) = .ok target →
      (Copy w' target.path c ↔ Copy w target.path c) := by
    intro target c htarget
    unfold Copy HoldsNas
    rw [hnas, hoff target.path (fun s _ => (segmentFile_ne_l1Path htarget s).symm)
      fun target' _ => (lineagePath_ne htarget).symm]
  refine h.change hch ⟨hactive, hsealed, hmarked, fun hnone target c htarget => ?_,
    fun records hsome => ?_⟩
  · rw [hcopy target c htarget]
    exact (h.window ts).absent (harchived ▸ hnone) target c htarget
  · obtain ⟨target, table, htarget, htable, hc, huniq⟩ :=
      (h.window ts).present records (harchived ▸ hsome)
    refine ⟨target, table, htarget, htable, (hcopy target _ htarget).mpr hc, fun c hc' => ?_⟩
    exact huniq c ((hcopy target c htarget).mp hc')

/-- Writing the active segment. -/
theorem Shows.writeActive {records : List W}
    (hfiles : w'.files = w.files.insert (segmentFile feed ts ".ndjson") (.ndjson records)) :
    Shows env codec feed w' (update slots ts { slots ts with active := some records }) := by
  refine h.segments hnas (fun path hpath _ => ?_) rfl ?_ ?_ ?_
  · rw [hfiles, AList.lookup_insert_ne (hpath _ (by decide))]
  · rw [hfiles, AList.lookup_insert]
    rfl
  · rw [hfiles, AList.lookup_insert_ne active_ne_sealed.symm, (h.window ts).sealed]
  · rw [hfiles, AList.lookup_insert_ne active_ne_marker.symm, (h.window ts).marked]

/-- The rename that seals a segment. -/
theorem Shows.rename {records : List W}
    (hfiles : w'.files = (w.files.erase (segmentFile feed ts ".ndjson")).insert
      (segmentFile feed ts ".ndjson.sealed") (.ndjson records)) :
    Shows env codec feed w'
      (update slots ts { slots ts with active := none, sealed := some records }) := by
  refine h.segments hnas (fun path hpath _ => ?_) rfl ?_ ?_ ?_
  · rw [hfiles, AList.lookup_insert_ne (hpath _ (by decide)),
      AList.lookup_erase_ne (hpath _ (by decide))]
  · rw [hfiles, AList.lookup_insert_ne active_ne_sealed, AList.lookup_erase]
    rfl
  · rw [hfiles, AList.lookup_insert]
    rfl
  · rw [hfiles, AList.lookup_insert_ne sealed_ne_marker.symm,
      AList.lookup_erase_ne active_ne_marker.symm, (h.window ts).marked]

/-- The garbage collector removes the sealed segment. -/
theorem Shows.eraseSealed
    (hfiles : w'.files = w.files.erase (segmentFile feed ts ".ndjson.sealed")) :
    Shows env codec feed w' (update slots ts { slots ts with sealed := none }) := by
  refine h.segments hnas (fun path hpath _ => ?_) rfl ?_ ?_ ?_
  · rw [hfiles, AList.lookup_erase_ne (hpath _ (by decide))]
  · rw [hfiles, AList.lookup_erase_ne active_ne_sealed, (h.window ts).active]
  · rw [hfiles, AList.lookup_erase]
    rfl
  · rw [hfiles, AList.lookup_erase_ne sealed_ne_marker.symm, (h.window ts).marked]

/-- A change of the marker, and of the lineage file beside the L1 file. -/
theorem Shows.setMarker (hne : ∀ path, path ≠ segmentFile feed ts ".ndjson.sealed.compacted" →
      (∀ target, l1Target env (sealedSegment feed ts) = .ok target →
      path ≠ lineagePath target) →
      w'.files.lookup path = w.files.lookup path) {marked : Bool}
    (hmarked : (w'.files.lookup (segmentFile feed ts ".ndjson.sealed.compacted")).isSome =
      marked) :
    Shows env codec feed w' (update slots ts { slots ts with marked := marked }) := by
  refine h.segments hnas (fun path hpath => hne path (hpath _ (by decide))) rfl ?_ ?_ hmarked
  · exact (hne _ active_ne_marker fun _ htarget => segmentFile_ne_lineage htarget).trans
      (h.window ts).active
  · exact (hne _ sealed_ne_marker fun _ htarget => segmentFile_ne_lineage htarget).trans
      (h.window ts).sealed

/-- Directories, faults, replies and the retry queue do not show. -/
theorem Shows.of_same (hfiles : w'.files = w.files) : Shows env codec feed w' slots := by
  have hsame : Shows env codec feed w' (update slots 0 (slots 0)) :=
    h.segments hnas (fun path _ _ => by rw [hfiles]) rfl (hfiles ▸ (h.window 0).active)
      (hfiles ▸ (h.window 0).sealed) (hfiles ▸ (h.window 0).marked)
  rwa [Function.update_eq_self] at hsame

end

/-! ## operations on the L1 file of a window -/

variable {target : L1Target} {table : Table R} {records : List W}

/-- A change of the L1 file of one window, on disk or on NAS. -/
theorem Shows.l1 (h : Shows env codec feed w slots)
    (htarget : l1Target env (sealedSegment feed ts) = .ok target)
    (htable : l1Table env codec target records = .ok table)
    (hfiles : ∀ path, path ≠ target.path → w'.files.lookup path = w.files.lookup path)
    (hnas : ∀ key, key ≠ target.path → w'.nas.lookup key = w.nas.lookup key)
    (hT : Truthful w') (hcopy : Copy w' target.path (.parquet table))
    (huniq : ∀ c, Copy w' target.path c → c = .parquet table) :
    Shows env codec feed w' (update slots ts { slots ts with archived := some records }) := by
  have hch : Changes env feed ts w w' := by
    refine ⟨fun path hpath => hfiles path ?_, fun key hkey => hnas key ?_, fun _ => hT⟩
    · rintro rfl
      exact hpath (own_l1Path htarget)
    · rintro rfl
      exact hkey (own_l1Path htarget)
  have hsegment : ∀ s, w'.files.lookup (segmentFile feed ts s) =
      w.files.lookup (segmentFile feed ts s) :=
    fun s => hfiles _ (segmentFile_ne_l1Path htarget s)
  refine h.change hch ⟨(hsegment _).trans (h.window ts).active,
    (hsegment _).trans (h.window ts).sealed, ?_, nofun, ?_⟩
  · rw [hsegment]
    exact (h.window ts).marked
  · intro records' hsome
    cases hsome
    exact ⟨target, table, htarget, htable, hcopy, huniq⟩

/-- What a copy of the L1 file says about a secured batch. -/
theorem ShowsAt.copy_eq (hx : ShowsAt env codec feed w ts x) (hsound : x.Sound)
    (htarget : l1Target env (sealedSegment feed ts) = .ok target)
    (htable : l1Table env codec target records = .ok table) (hsecured : x.Secured records)
    {c : Content W R} (hc : Copy w target.path c) : c = .parquet table := by
  cases harchived : x.archived with
  | none => exact absurd hc (hx.absent harchived target c htarget)
  | some records' =>
    obtain ⟨target', table', htarget', htable', -, huniq⟩ := hx.present records' harchived
    cases htarget'.symm.trans htarget
    cases hsound.secured hsecured harchived
    cases htable'.symm.trans htable
    exact huniq c hc

end MctraderData.Wal
