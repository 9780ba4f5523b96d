import MctraderData.Wal.Ingester
import MctraderData.Wal.Store

/-!
# mctrader-data — which records the WAL keeps

One node writes one stream. Its ingester may be created, closed and created again at any
time; the compactor works through `scan_sealed` phase by phase, and the garbage collector
marker by marker, in any order between the operations of the ingester.

A segment's name has only its window and its node. An ingester that is created again in
the window of a segment that was already sealed writes a second segment of the same name,
and `os.replace` seals it over the first.

## Results

* `wal_keeps_acked_records` — as long as a segment is sealed only under a name that is not
  in use, every record whose `append` returned is in an active segment, in a sealed
  segment or in an L1 file.
* `wal_loses_record_on_restart` — a restart in the same window loses a record.
-/

namespace MctraderData.Wal

open Lib Eff
open Nas
open Compactor
open Function (update)

/-! ## the system -/

/-- What a compaction in progress does next. -/
inductive Stage where
  | write
  | upload
  | mark
deriving DecidableEq, Repr

/-- The disk, the parties that work on it, and the records whose `append` returned. -/
structure Sys (W R : Type) [Blob (Content W R)] where
  world : World (Content W R)
  clock : Nat
  ingester : Option Ingester := none
  /-- What is left of the last `scan_sealed`. -/
  pending : List Path := []
  job : Option (Stage × Job R) := none
  /-- `st_mtime` of the markers. -/
  mtime : Path → Nat := fun _ => 0
  acked : List W := []

inductive Action (W : Type) where
  | advance (seconds : Nat)
  | create (mono : Nat)
  | append (mono : Nat) (record : W)
  | flush (mono : Nat)
  | close
  /-- A pass of the compactor starts; one that was going on is given up. -/
  | scan
  | beginSegment
  | compact
  | gc (marker : Path)

/-- `GRACE_SECONDS` -/
def graceSeconds : Nat := 86400

variable {W R : Type} [Blob (Content W R)]

/-- Run a method of an ingester on the disk. -/
def Sys.call (s : Sys W R) (ing : Ingester) (m : Method W R Unit) : Sys W R :=
  { s with
    ingester := some (m.after ⟨ing, s.world⟩).ingester
    world := (m.after ⟨ing, s.world⟩).world }

/-- Did the method return? -/
def Sys.returns (s : Sys W R) (ing : Ingester) (m : Method W R Unit) : Bool :=
  match m.result ⟨ing, s.world⟩ with
  | .ok _ => true
  | .error _ => false

variable [Timed R] (cfg : Config) (env : Env R) (codec : Codec W R) (dual : Bool)
  (feed : Feed)

/-- The next phase of the compaction in progress. -/
def Sys.compact (s : Sys W R) (stage : Stage) (job : Job R) : Sys W R :=
  match stage with
  | .write => { s with world := (writeSegment job).after s.world, job := some (.upload, job) }
  | .upload =>
    { s with world := (nasHook dual job.target.path).after s.world, job := some (.mark, job) }
  | .mark =>
    { s with
      world := (markSegment codec job).after s.world
      job := none
      mtime := if (s.world.files.lookup (compactedPath job.sealedPath)).isSome then s.mtime
        else update s.mtime (compactedPath job.sealedPath) s.clock }

/-- A read that raised ends the compaction of its segment. -/
def jobOf : Except Exn (Job R) → Option (Stage × Job R)
  | .ok job => some (.write, job)
  | .error _ => none

/-- `compact_segment` up to its write, on the next segment of the pass. -/
def Sys.beginSegment (s : Sys W R) (path : Path) (rest : List Path) : Sys W R :=
  { s with
    world := (readSegment env codec path).after s.world
    pending := rest
    job := jobOf ((readSegment env codec path).result s.world) }

/-- One step of one party; `none` when the action is not enabled. -/
def Sys.step (s : Sys W R) : Action W → Option (Sys W R)
  | .advance seconds => some { s with clock := s.clock + seconds }
  | .create mono => some (s.call {} (create cfg feed s.clock mono))
  | .append mono record =>
    s.ingester.map fun ing =>
      let m := append cfg feed s.clock mono record
      { s.call ing m with acked := if s.returns ing m then record :: s.acked else s.acked }
  | .flush mono => s.ingester.map fun ing => s.call ing (flush mono)
  | .close => s.ingester.map fun ing => s.call ing close
  | .scan => some { s with pending := scanSealed s.world, job := none }
  | .beginSegment =>
    match s.pending with
    | [] => none
    | path :: rest => some (s.beginSegment env codec path rest)
  | .compact => s.job.map fun p => s.compact codec dual p.1 p.2
  | .gc marker =>
    if marker ∈ rglobWal s.world ".ndjson.sealed.compacted" ∧
        graceSeconds ≤ s.clock - s.mtime marker then
      some { s with world := (gcOne marker).after s.world }
    else none

variable {cfg env codec dual feed} in
theorem Sys.eq_of_step_beginSegment {s s' : Sys W R}
    (h : s.step cfg env codec dual feed .beginSegment = some s') :
    ∃ path rest, s.pending = path :: rest ∧ s' = s.beginSegment env codec path rest := by
  cases hpending : s.pending with
  | nil => simp [Sys.step, hpending] at h
  | cons path rest => simp_all [Sys.step]

variable {cfg env codec dual feed} in
theorem Sys.eq_of_step_gc {s s' : Sys W R} {marker : Path}
    (h : s.step cfg env codec dual feed (.gc marker) = some s') :
    marker ∈ rglobWal s.world ".ndjson.sealed.compacted" ∧
      s' = { s with world := (gcOne marker).after s.world } := by
  simp only [Sys.step] at h
  split at h
  · rename_i hmem
    exact ⟨hmem.1, (Option.some.inj h).symm⟩
  · cases h

/-- The system starts on an empty disk and an empty bucket, at any time and with any
replies of the NAS. -/
def walMachine : Machine (Sys W R) (Action W) where
  init s := s.world.files = ∅ ∧ s.world.nas = ∅ ∧ s.ingester = none ∧ s.pending = [] ∧
    s.job = none ∧ s.acked = []
  step := Sys.step cfg env codec dual feed

/-- The record is in an active segment, in a sealed segment, or its batch was converted to
an L1 file that is there, on disk or on NAS. -/
def Held (w : World (Content W R)) (record : W) : Prop :=
  ∃ ts records, record ∈ records ∧
    (w.files.lookup (activeSegmentPath feed ts) = some (.ndjson records) ∨
      w.files.lookup (sealedSegment feed ts) = some (.ndjson records) ∨
      ∃ target table, l1Target env (sealedSegment feed ts) = .ok target ∧
        l1Table env codec target records = .ok table ∧ Copy w target.path (.parquet table))

/-- Neither a sealed segment nor an L1 file has the name of the window. -/
def NameFree (w : World (Content W R)) (ts : Nat) : Prop :=
  w.files.lookup (sealedSegment feed ts) = none ∧
    ∀ target c, l1Target env (sealedSegment feed ts) = .ok target → ¬ Copy w target.path c

/-- The start of the window of the current segment. -/
def Ingester.windowStart (ing : Ingester) : Nat := ing.segmentStartIdx * cfg.segmentSeconds

/-- The step seals the current segment of an open ingester. -/
def Seals (s : Sys W R) (ing : Ingester) : Action W → Prop
  | .close => True
  | .append _ _ => windowOver cfg ing s.clock = true
  | _ => False

/-- A step that seals a segment finds its name free. -/
def SealsFree (s : Sys W R) (a : Action W) : Prop :=
  ∀ ing, s.ingester = some ing → ing.closed = false → Seals cfg s ing a →
    NameFree env feed s.world (ing.windowStart cfg)

omit [Timed R] in
theorem nameFree_iff (w : World (Content W R)) (ts : Nat) :
    NameFree env feed w ts ↔ w.files.lookup (sealedSegment feed ts) = none ∧
      ∀ target ∈ (l1Target env (sealedSegment feed ts)).toOption,
        w.files.lookup target.path = none ∧ w.nas.lookup target.path = none := by
  unfold NameFree Copy HoldsNas
  cases l1Target env (sealedSegment feed ts) with
  | error e => simp [Except.toOption]
  | ok target =>
    simp only [Except.toOption, Except.ok.injEq, Option.mem_def, Option.some.injEq, forall_eq',
      Option.eq_none_iff_forall_ne_some]
    refine and_congr_right fun _ => ⟨fun h => ⟨fun c hc => ?_, fun o ho => ?_⟩, ?_⟩
    · exact h target c rfl (Or.inl hc)
    · exact h target o.body rfl (Or.inr ⟨o, ho, rfl⟩)
    · rintro ⟨hlocal, hnas⟩ _ c rfl (hc | ⟨o, ho, -⟩)
      · exact hlocal c hc
      · exact hnas o ho

instance (w : World (Content W R)) (ts : Nat) : Decidable (NameFree env feed w ts) :=
  decidable_of_iff' _ (nameFree_iff env feed w ts)

instance (s : Sys W R) (ing : Ingester) : DecidablePred (Seals cfg s ing) := fun a =>
  match a with
  | .close => inferInstanceAs (Decidable True)
  | .append _ _ => inferInstanceAs (Decidable (_ = true))
  | .advance _ | .create _ | .flush _ | .scan | .beginSegment | .compact | .gc _ =>
    inferInstanceAs (Decidable False)

instance (s : Sys W R) : DecidablePred (SealsFree cfg env feed s) := fun a =>
  inferInstanceAs (Decidable (∀ ing ∈ s.ingester, ing.closed = false → Seals cfg s ing a →
    NameFree env feed s.world (ing.windowStart cfg)))

/-! ## the writer -/

/-- An open ingester has its segment open, and the segment is there. -/
def Writing (slots : Nat → Slot W) (ing : Ingester) : Prop :=
  ing.closed = false →
    ing.fd = some (activeSegmentPath feed (ing.windowStart cfg)) ∧
      ing.currentPath = some (activeSegmentPath feed (ing.windowStart cfg)) ∧
      ∃ records, (slots (ing.windowStart cfg)).active = some records

/-- The disk after a method, and how its slots got there. -/
structure Written (slots : Nat → Slot W) (s : Writer W R) (slots' : Nat → Slot W) : Prop where
  shows : Shows env codec feed s.world slots'
  evolves : Evolves slots slots'
  writing : Writing cfg feed slots' s.ingester

variable {cfg env codec dual feed} {s : Writer W R} {slots : Nat → Slot W} {ts : Nat}

theorem ShowsAt.nameFree {w : World (Content W R)} {x : Slot W}
    (hx : ShowsAt env codec feed w ts x) (hfree : NameFree env feed w ts) :
    x.sealed = none ∧ x.archived = none := by
  have hsealed := hfree.1
  rw [sealedSegment_eq, hx.sealed, Option.map_eq_none_iff] at hsealed
  refine ⟨hsealed, Option.eq_none_iff_forall_ne_some.mpr fun records harchived => ?_⟩
  obtain ⟨target, table, htarget, -, hcopy, -⟩ := hx.present records harchived
  exact hfree.2 target _ htarget hcopy

omit [Timed R] in
/-- The end of `append` only counts. -/
theorem countWrite_post (s : Writer W R) (mono : Nat) :
    wp (countWrite cfg mono) (fun _ s' => s'.world = s.world ∧
      s'.ingester.closed = s.ingester.closed ∧ s'.ingester.fd = s.ingester.fd ∧
      s'.ingester.currentPath = s.ingester.currentPath ∧
      s'.ingester.segmentStartIdx = s.ingester.segmentStartIdx) s := by
  simp only [countWrite, modifyIngester, resetWindow, wp_bind, wp_modify, wp_get]
  split <;> exact ⟨rfl, rfl, rfl, rfl, rfl⟩

theorem Written.after {slots₁ slots₂ : Nat → Slot W} {s' : Writer W R}
    (h : Written cfg env codec feed slots₁ s' slots₂) (hev : Evolves slots slots₁) :
    Written cfg env codec feed slots s' slots₂ :=
  ⟨h.shows, hev.trans h.evolves, h.writing⟩

section

variable (hs : Shows env codec feed s.world slots)
include hs

/-- `_open_new_segment` continues the segment of the window or starts it. -/
theorem openNewSegment_post (idx mono : Nat) :
    wp (openNewSegment cfg feed idx mono) (fun r s' => r = .ok () ∧
      s'.ingester.closed = s.ingester.closed ∧
      ∃ slots', Written cfg env codec feed slots s' slots') s := by
  let ts := idx * cfg.segmentSeconds
  have hactive := (hs.window ts).active
  unfold openNewSegment openAppend modifyIngester modifyFiles
  simp only [wp_bind, wp_modify, wp_get, activeSegmentPath_eq]
  cases hslot : (slots ts).active with
  | some records =>
    rw [hslot] at hactive
    simp only [ts] at hactive
    simp only [hactive, Option.map_some, Option.isSome_some, if_true, wp_pure]
    exact ⟨trivial, trivial, slots, hs, .refl slots, fun _ => ⟨rfl, rfl, records, hslot⟩⟩
  | none =>
    rw [hslot] at hactive
    simp only [ts] at hactive
    simp only [hactive, Option.map_none, Option.isSome_none, Bool.false_eq_true, if_false,
      wp_modify]
    refine ⟨trivial, trivial, update slots ts { slots ts with active := some [] },
      hs.writeActive (by rfl) (by rfl), .single (.start hslot), fun _ => ⟨rfl, rfl, [], ?_⟩⟩
    show (update slots ts _ ts).active = some []
    rw [Function.update_self]

theorem create_post (now mono : Nat) :
    wp (create cfg feed now mono) (fun _ s' =>
      ∃ slots', Written cfg env codec feed slots s' slots') s := by
  simp only [create, modifyIngester, wp_bind, wp_modify]
  let s₁ : Writer W R := ⟨{ lastFsyncMonotonic := mono }, s.world⟩
  have hopened : wp (openNewSegment cfg feed _ mono) _ s₁ :=
    openNewSegment_post (s := s₁) hs (segmentIndex now cfg.segmentSeconds) mono
  exact wp_mono hopened fun _ _ h => h.2.2

variable (hwriting : Writing cfg feed slots s.ingester)
include hwriting

/-- `_seal_current` of an open ingester whose segment's name is free. -/
theorem sealCurrent_post (hopen : s.ingester.closed = false)
    (hfree : NameFree env feed s.world (s.ingester.windowStart cfg)) :
    wp (sealCurrent) (fun r s' => r = .ok () ∧ s'.ingester.closed = false ∧
      ∃ slots', Shows env codec feed s'.world slots' ∧ Evolves slots slots') s := by
  obtain ⟨hfd, hcurrent, records, hrecords⟩ := hwriting hopen
  have hslot := hs.window (s.ingester.windowStart cfg)
  obtain ⟨hsealed, harchived⟩ := hslot.nameFree hfree
  have hfile := hslot.active
  rw [hrecords] at hfile
  simp only [sealCurrent, modifyIngester, modifyFiles, replaceFile, assertSome, hfd, hcurrent,
    activeSegmentPath_eq, wp_bind, wp_get, wp_pure, wp_modify, hfile,
    Option.map_some]
  refine ⟨trivial, hopen, _, hs.rename (by rfl) ?_, .single (.close hrecords hsealed harchived)⟩
  rw [show sealPath (segmentFile feed _ ".ndjson") = _ from sealedSegment_eq feed _]

/-- The part of `append` after the window check: a record it returned for is in the
active segment. -/
theorem writeLine_post (hopen : s.ingester.closed = false) (mono : Nat) (record : W) :
    wp (writeLine cfg mono record) (fun r s' =>
      ∃ slots', Written cfg env codec feed slots s' slots' ∧
        (r = .ok () → ∃ ts, (slots' ts).Holds record)) s := by
  obtain ⟨hfd, hcurrent, records, hrecords⟩ := hwriting hopen
  let ts := s.ingester.windowStart cfg
  have hfile := (hs.window ts).active
  rw [hrecords] at hfile
  simp only [writeLine, wp_bind, wp_get]
  by_cases hfull : bufferFull cfg s.ingester
  · simp only [if_pos hfull, wp_throw]
    exact ⟨slots, ⟨hs, .refl slots, hwriting⟩, fun h => by cases h⟩
  · simp only [if_neg hfull, hfd, assertSome, writeRecord, modifyFiles, activeSegmentPath_eq,
      wp_bind, wp_pure, wp_get, hfile, Option.map_some, wp_modify, ts]
    refine wp_mono (countWrite_post _ mono) ?_
    rintro r s' ⟨hworld, hclosed, hfd', hcurrent', hidx⟩
    let slots' := update slots ts { slots ts with active := some (records ++ [record]) }
    have hstart : s'.ingester.windowStart cfg = ts := by
      unfold Ingester.windowStart
      rw [hidx]
      rfl
    have hactive : (slots' ts).active = some (records ++ [record]) := by
      show (update slots ts _ ts).active = _
      rw [Function.update_self]
    refine ⟨slots', ⟨?_, .single (.write record hrecords), fun _ => ?_⟩, fun _ => ⟨ts, ?_⟩⟩
    · rw [hworld]
      exact hs.writeActive (by rfl) (by rfl)
    · rw [hstart, hfd', hcurrent']
      exact ⟨hfd, hcurrent, _, hactive⟩
    · exact ⟨_, Or.inl hactive, List.mem_append_right _ (List.mem_singleton_self record)⟩

theorem maybeSeal_post (hopen : s.ingester.closed = false) (now mono : Nat)
    (hfree : windowOver cfg s.ingester now = true →
      NameFree env feed s.world (s.ingester.windowStart cfg)) :
    wp (maybeSeal cfg feed now mono) (fun r s' => r = .ok () ∧
      s'.ingester.closed = false ∧ ∃ slots', Written cfg env codec feed slots s' slots') s := by
  simp only [maybeSeal, wp_bind, wp_get]
  by_cases hover : windowOver cfg s.ingester now = true
  · rw [if_pos hover]
    refine wp_seq (sealCurrent_post hs hwriting hopen (hfree hover)) ?_
      fun _ _ h => by cases h.1
    rintro - s₁ ⟨-, hopen₁, slots₁, hs₁, hev₁⟩
    refine wp_mono (openNewSegment_post hs₁ _ mono) ?_
    rintro r s₂ ⟨hr, hopen₂, slots₂, hwritten⟩
    exact ⟨hr, hopen₂.trans hopen₁, slots₂, hwritten.after hev₁⟩
  · rw [if_neg hover]
    exact ⟨rfl, hopen, slots, hs, .refl slots, hwriting⟩

/-- **`append`.** A record it returned for is held. -/
theorem append_post (now mono : Nat) (record : W)
    (hfree : s.ingester.closed = false → windowOver cfg s.ingester now = true →
      NameFree env feed s.world (s.ingester.windowStart cfg)) :
    wp (append cfg feed now mono record) (fun r s' =>
      ∃ slots', Written cfg env codec feed slots s' slots' ∧
        (r = .ok () → ∃ ts, (slots' ts).Holds record)) s := by
  simp only [append, wp_bind, wp_get]
  cases hclosed : s.ingester.closed with
  | true => exact ⟨slots, ⟨hs, .refl slots, hwriting⟩, fun h => by cases h⟩
  | false =>
    refine wp_seq (maybeSeal_post hs hwriting hclosed now mono (hfree hclosed)) ?_
      fun _ _ h => by cases h.1
    rintro - s₁ ⟨-, hopen₁, slots₁, hwritten₁⟩
    refine wp_mono (writeLine_post hwritten₁.shows hwritten₁.writing hopen₁ mono record) ?_
    rintro r s₂ ⟨slots₂, hwritten₂, hheld⟩
    exact ⟨slots₂, hwritten₂.after hwritten₁.evolves, hheld⟩

theorem close_post (hfree : s.ingester.closed = false →
      NameFree env feed s.world (s.ingester.windowStart cfg)) :
    wp (close) (fun _ s' => ∃ slots', Written cfg env codec feed slots s' slots') s := by
  simp only [close, wp_bind, wp_get]
  cases hclosed : s.ingester.closed with
  | true => exact ⟨slots, hs, .refl slots, hwriting⟩
  | false =>
    obtain ⟨-, hcurrent, records, hrecords⟩ := hwriting hclosed
    have hslot := hs.window (s.ingester.windowStart cfg)
    obtain ⟨hsealed, harchived⟩ := hslot.nameFree (hfree hclosed)
    have hfile := hslot.active
    rw [hrecords] at hfile
    simp only [Bool.false_eq_true, if_false, modifyIngester, modifyFiles, sealIfExists, hcurrent,
      replaceFile, activeSegmentPath_eq, wp_bind, wp_modify, wp_get, hfile,
      Option.map_some, Option.isSome_some, if_true]
    refine ⟨_, hs.rename (by rfl) ?_, .single (.close hrecords hsealed harchived),
      fun h => by cases h⟩
    rw [show sealPath (segmentFile feed _ ".ndjson") = _ from sealedSegment_eq feed _]

theorem flush_post (mono : Nat) :
    wp (flush mono) (fun _ s' => Written cfg env codec feed slots s' slots) s := by
  simp only [flush, wp_bind, wp_get]
  repeat' split
  all_goals exact ⟨hs, .refl slots, hwriting⟩

end

/-! ## the compactor and the garbage collector -/

variable {w : World (Content W R)} {path : Path}

/-- A scan returns sealed segments. -/
theorem mem_scanSealed (hs : Shows env codec feed w slots) (h : path ∈ scanSealed w) :
    ∃ ts, path = sealedSegment feed ts := by
  have hmem : path ∈ rglobWal w ".ndjson.sealed" :=
    (List.mem_insertionSort (pathLe · ·)).mp (List.mem_of_mem_filter h)
  rw [rglobWal, List.mem_filter, ← AList.mem_keys, ← AList.lookup_isSome] at hmem
  simp only [Bool.and_eq_true, beq_iff_eq] at hmem
  obtain ⟨hsome, ⟨hhead, -⟩, hsuffix⟩ := hmem
  obtain ⟨ts, state, hstate, rfl⟩ := hs.ours path hsome hhead
  refine ⟨ts, ?_⟩
  rw [hasSuffix_segmentFile hstate (by decide) hsuffix, sealedSegment_eq]

/-- A marker the collector finds is the marker of a window. -/
theorem mem_markers (hs : Shows env codec feed w slots)
    (h : path ∈ rglobWal w ".ndjson.sealed.compacted") :
    ∃ ts, path = segmentMarker feed ts ∧ (slots ts).marked = true := by
  rw [rglobWal, List.mem_filter, ← AList.mem_keys, ← AList.lookup_isSome] at h
  simp only [Bool.and_eq_true, beq_iff_eq] at h
  obtain ⟨hsome, ⟨hhead, -⟩, hsuffix⟩ := h
  obtain ⟨ts, state, hstate, rfl⟩ := hs.ours path hsome hhead
  rw [hasSuffix_segmentFile hstate (by decide) hsuffix] at hsome ⊢
  exact ⟨ts, (segmentMarker_eq feed ts).symm, (hs.window ts).marked.symm.trans hsome⟩

variable (env codec feed) in
/-- A compaction in progress: the table to be written is of a batch that is sealed or
archived, and without one the L1 file is there. -/
def JobOk (slots : Nat → Slot W) (stage : Stage) (job : Job R) : Prop :=
  ∃ ts, job.sealedPath = sealedSegment feed ts ∧
    l1Target env (sealedSegment feed ts) = .ok job.target ∧
    ((stage = .write ∧ ∃ table records, job.table = some table ∧
        l1Table env codec job.target records = .ok table ∧ (slots ts).Secured records) ∨
      ((stage = .write → job.table = none) ∧ ∃ records, (slots ts).archived = some records))

variable {job : Job R} {slots' : Nat → Slot W} {stage : Stage}

omit [Blob (Content W R)] in
theorem JobOk.evolves (h : JobOk env codec feed slots stage job) (hev : Evolves slots slots')
    (hsound : ∀ ts, (slots ts).Sound) : JobOk env codec feed slots' stage job := by
  obtain ⟨ts, hpath, htarget, ⟨hstage, table, records, htable, hrows, hsecured⟩ | ⟨hnone, ha⟩⟩ := h
  · refine ⟨ts, hpath, htarget, Or.inl ⟨hstage, table, records, htable, hrows, ?_⟩⟩
    exact hev.secured hsound hsecured
  · exact ⟨ts, hpath, htarget, Or.inr ⟨hnone, hev.archived hsound ha⟩⟩

/-- Reading a segment makes a directory and a job. -/
theorem readSegment_post (hs : Shows env codec feed w slots) (ts : Nat) :
    wp (readSegment env codec (sealedSegment feed ts)) (fun r w' =>
      w'.files = w.files ∧ w'.nas = w.nas ∧
        ∀ job, r = .ok job → JobOk env codec feed slots .write job) w := by
  have hslot := hs.window ts
  unfold readSegment
  cases htarget : l1Target env (sealedSegment feed ts) with
  | error e => exact ⟨rfl, rfl, fun _ h => by cases h⟩
  | ok target =>
    simp only [Compactor.ofExcept, mkdir, wp_bind, wp_pure, wp_modify, wp_get]
    cases hfile : w.files.lookup target.path with
    | some c =>
      refine ⟨rfl, rfl, fun job hjob => ?_⟩
      cases hjob
      refine ⟨ts, rfl, htarget, Or.inr ⟨fun _ => rfl, ?_⟩⟩
      cases harchived : (slots ts).archived with
      | none => exact absurd (Or.inl hfile) (hslot.absent harchived target c htarget)
      | some records => exact ⟨records, rfl⟩
    | none =>
      have hsealed := hslot.sealed
      rw [← sealedSegment_eq] at hsealed
      simp only [Option.isSome_none, Bool.false_eq_true, if_false, segmentTable, hsealed,
        wp_bind]
      cases hrecords : (slots ts).sealed with
      | none => exact ⟨rfl, rfl, fun _ h => by cases h⟩
      | some records =>
        simp only [Option.map_some]
        cases htable : l1Table env codec target records with
        | error e => exact ⟨rfl, rfl, fun _ h => by cases h⟩
        | ok table =>
          refine ⟨rfl, rfl, fun job hjob => ?_⟩
          cases hjob
          exact ⟨ts, rfl, htarget, Or.inl ⟨rfl, table, records, rfl, htable, Or.inl hrecords⟩⟩

variable (env codec feed) in
/-- What a step of the compactor or the collector does to the disk: the active segments
stay as they are. -/
def Maintains (slots : Nat → Slot W) (w' : World (Content W R)) (slots' : Nat → Slot W) : Prop :=
  Shows env codec feed w' slots' ∧ Evolves slots slots' ∧
    ∀ ts, (slots' ts).active = (slots ts).active

theorem active_update {x : Slot W} (hx : x.active = (slots ts).active) (ts' : Nat) :
    (update slots ts x ts').active = (slots ts').active := by
  rcases eq_or_ne ts' ts with rfl | h <;> simp [*]

section

variable (hs : Shows env codec feed w slots)
include hs

/-- The L1 file is written. -/
theorem writeSegment_post (hsound : ∀ ts, (slots ts).Sound)
    (hjob : JobOk env codec feed slots .write job) :
    wp (writeSegment job) (fun _ w' => ∃ slots', Maintains env codec feed slots w' slots' ∧
      JobOk env codec feed slots' .upload job) w := by
  obtain ⟨ts, hpath, htarget, ⟨-, table, records, htable, hrows, hsecured⟩ | ⟨hnone, ha⟩⟩ := hjob
  · simp only [writeSegment, htable, writeFile, wp_modify]
    have hne : ∀ path, path ≠ job.target.path →
        (w.files.insert job.target.path (.parquet table)).lookup path = w.files.lookup path :=
      fun path hpath => AList.lookup_insert_ne hpath
    have huniq : ∀ c, Copy { w with files := w.files.insert job.target.path (.parquet table) }
        job.target.path c → c = .parquet table := by
      rintro c (hlocal | hnas)
      · exact (Option.some.inj ((AList.lookup_insert _).symm.trans hlocal)).symm
      · exact (hs.window ts).copy_eq (hsound ts) htarget hrows hsecured (Or.inr hnas)
    refine ⟨update slots ts { slots ts with archived := some records }, ⟨?_, .single (.archive
      hsecured), active_update (by rfl)⟩, ts, hpath, htarget,
      Or.inr ⟨fun h => (by cases h), records, ?_⟩⟩
    · exact hs.l1 htarget hrows hne (fun _ _ => rfl) hs.truthful
        (Or.inl (AList.lookup_insert _)) huniq
    · rw [Function.update_self]
  · simp only [writeSegment, hnone rfl, wp_pure]
    exact ⟨slots, ⟨hs, .refl slots, fun _ => rfl⟩, ts, hpath, htarget,
      Or.inr ⟨fun h => (by cases h), ha⟩⟩

/-- `put_l1` of the L1 file of a window: the file may go, but not both its copies. -/
theorem putL1_shows {target : L1Target} {records : List W}
    (htarget : l1Target env (sealedSegment feed ts) = .ok target)
    (harchived : (slots ts).archived = some records) :
    wp (putL1 target.path) (fun _ w' => ∃ slots', Maintains env codec feed slots w' slots')
      w := by
  have hkey := buildNasKey_l1Target htarget
  have hslot := hs.window ts
  obtain ⟨target', table, htarget', hrows, -, huniq⟩ := hslot.present records harchived
  cases htarget'.symm.trans htarget
  cases hfile : w.files.lookup target.path with
  | none =>
    -- nothing to upload: the read raises
    unfold putL1
    rw [hkey]
    refine (wp_bind _ _).mpr ((wp_readFile_none hfile).mpr ?_)
    exact ⟨slots, hs, .refl slots, fun _ => rfl⟩
  | some c =>
    have hframe := putL1_frame hs.truthful hkey hfile
    have hheld := (putL1_keeps_payload hs.truthful hfile).held
    have hc : c = .parquet table := huniq c (Or.inl hfile)
    let w' := (putL1 target.path).after w
    have hcopy : Copy w' target.path (.parquet table) := by
      rw [← hc]
      exact (or_self_left ..).mp hheld
    have hfiles : ∀ path, path ≠ target.path → w'.files.lookup path = w.files.lookup path := by
      intro path hne
      rcases hframe.files with heq | heq
      · exact congrArg (AList.lookup path) heq
      · exact (congrArg (AList.lookup path) heq).trans (AList.lookup_erase_ne hne)
    have hlast : ∀ c', Copy w' target.path c' → c' = .parquet table := by
      rintro c' (hlocal | ⟨o, ho, hbody⟩)
      · rcases hframe.files with heq | heq
        · exact huniq c' (Or.inl ((congrArg (AList.lookup target.path) heq).symm.trans hlocal))
        · have hgone := (congrArg (AList.lookup target.path) heq).trans (AList.lookup_erase _ _)
          exact absurd (hlocal.symm.trans hgone) nofun
      · rcases hframe.atKey with hsame | ⟨o', ho', hbody', -⟩
        · exact huniq c' (Or.inr ⟨o, hsame.symm.trans ho, hbody⟩)
        · cases ho.symm.trans ho'
          exact hbody.symm.trans (hbody'.trans hc)
    refine ⟨update slots ts { slots ts with archived := some records }, ?_, ?_, ?_⟩
    · exact hs.l1 htarget hrows hfiles hframe.elsewhere hframe.truthful hcopy hlast
    · exact .single (.archive (Or.inr harchived))
    · exact active_update (by rfl)

/-- The hook after the write. -/
theorem nasHook_post (hsound : ∀ ts, (slots ts).Sound)
    (hjob : JobOk env codec feed slots .upload job) :
    wp (nasHook dual job.target.path) (fun _ w' =>
      ∃ slots', Maintains env codec feed slots w' slots' ∧
        JobOk env codec feed slots' .mark job) w := by
  obtain ⟨ts, hpath, htarget, ⟨hstage, -⟩ | ⟨-, records, harchived⟩⟩ := hjob
  · cases hstage
  have hmark : JobOk env codec feed slots .mark job :=
    ⟨ts, hpath, htarget, Or.inr ⟨nofun, records, harchived⟩⟩
  have hstays : ∀ w', (∃ slots', Maintains env codec feed slots w' slots') →
      ∃ slots', Maintains env codec feed slots w' slots' ∧
        JobOk env codec feed slots' .mark job := by
    rintro w' ⟨slots', hm⟩
    exact ⟨slots', hm, hmark.evolves hm.2.1 hsound⟩
  unfold nasHook
  cases dual with
  | false => exact hstays w ⟨slots, hs, .refl slots, fun _ => rfl⟩
  | true =>
    refine wp_catch (P := fun _ w' => ∃ slots', Maintains env codec feed slots w' slots')
      ?_ (fun _ w' h => hstays w' h) fun _ w' h => hstays w' h
    exact wp_seq (putL1_shows hs htarget harchived) (fun _ _ h => h) fun _ _ h => h

/-- The lineage file and the marker. -/
theorem markSegment_post (hjob : JobOk env codec feed slots .mark job) :
    wp (markSegment codec job) (fun _ w' =>
      ∃ slots', Maintains env codec feed slots w' slots') w := by
  obtain ⟨ts, hpath, htarget, ⟨hstage, -⟩ | ⟨-, records, harchived⟩⟩ := hjob
  · cases hstage
  have hmarker : compactedPath job.sealedPath =
      segmentFile feed ts ".ndjson.sealed.compacted" := by
    rw [hpath]
    exact segmentMarker_eq feed ts
  have hdone : ∀ w' : World (Content W R), w'.nas = w.nas →
      (∀ path, path ≠ segmentFile feed ts ".ndjson.sealed.compacted" →
        path ≠ lineagePath job.target → w'.files.lookup path = w.files.lookup path) →
      (w'.files.lookup (segmentFile feed ts ".ndjson.sealed.compacted")).isSome = true →
      ∃ slots', Maintains env codec feed slots w' slots' := by
    intro w' hnas hfiles hmarked
    refine ⟨update slots ts { slots ts with marked := true }, ?_, .single (.mark harchived),
      active_update (by rfl)⟩
    exact hs.setMarker hnas (fun path hne hlineage => hfiles path hne (hlineage _ htarget)) hmarked
  have hlineage : ∀ path, path ≠ lineagePath job.target →
      (w.files.insert (lineagePath job.target) (.text (codec.lineage job.sealedPath))).lookup path =
        w.files.lookup path := fun path hne => AList.lookup_insert_ne hne
  simp only [markSegment, touch, writeFile, wp_bind, wp_modify, wp_get, hmarker]
  split
  · rename_i hthere
    rw [hmarker] at hthere
    exact hdone _ rfl (fun path _ hne => hlineage path hne) hthere
  · refine hdone _ rfl (fun path hne hne' => ?_) ?_
    · exact (AList.lookup_insert_ne hne).trans (hlineage path hne')
    · exact congrArg Option.isSome (AList.lookup_insert _)

/-- The marker goes last. -/
theorem unlinkMarker_post (hmarked : (slots ts).marked = true) :
    wp (unlink (segmentMarker feed ts)) (fun _ w' =>
      ∃ slots', Maintains env codec feed slots w' slots') w := by
  have hsome := (hs.window ts).marked.trans hmarked
  rw [← segmentMarker_eq] at hsome
  obtain ⟨c, hc⟩ := Option.isSome_iff_exists.mp hsome
  refine wp_unlink hc ?_ ⟨slots, hs.of_same rfl rfl, .refl slots, fun _ => rfl⟩
  refine ⟨update slots ts { slots ts with marked := false }, ?_, .single .dropMark,
    active_update (by rfl)⟩
  rw [segmentMarker_eq]
  exact hs.setMarker (by rfl) (fun path hne _ => AList.lookup_erase_ne hne) (by simp)

/-- **The collector.** A sealed segment goes only while its marker is there, and the
marker says that its L1 file exists. -/
theorem gcOne_post (hmarked : (slots ts).marked = true) :
    wp (gcOne (segmentMarker feed ts)) (fun _ w' =>
      ∃ slots', Maintains env codec feed slots w' slots') w := by
  have hunlink : wp (unlinkIfExists (sealedSegment feed ts)) (fun _ w' =>
      ∃ slots', Maintains env codec feed slots w' slots' ∧ (slots' ts).marked = true) w := by
    have hsame : ∀ w' : World (Content W R), w'.nas = w.nas → w'.files = w.files →
        ∃ slots', Maintains env codec feed slots w' slots' ∧ (slots' ts).marked = true :=
      fun w' hnas hfiles =>
        ⟨slots, ⟨hs.of_same hnas hfiles, .refl slots, fun _ => rfl⟩, hmarked⟩
    simp only [unlinkIfExists, wp_bind, wp_get]
    cases hc : w.files.lookup (sealedSegment feed ts) with
    | none => exact hsame w rfl rfl
    | some c =>
      refine wp_unlink hc ?_ (hsame _ rfl rfl)
      refine ⟨update slots ts { slots ts with sealed := none }, ⟨?_, .single (.dropSealed hmarked),
        active_update (by rfl)⟩, ?_⟩
      · exact hs.eraseSealed rfl (by rw [sealedSegment_eq])
      · rw [Function.update_self]
        exact hmarked
  rw [gcOne, sealedOf_segmentMarker]
  refine wp_catch (P := fun _ w' => ∃ slots', Maintains env codec feed slots w' slots') ?_
    (fun _ _ h => h) fun _ _ h => h
  refine wp_seq hunlink ?_ fun _ _ h => h.imp fun _ h' => h'.1
  rintro - w₁ ⟨slots₁, ⟨hs₁, hev₁, hactive₁⟩, hmarked₁⟩
  refine wp_mono (unlinkMarker_post hs₁ hmarked₁) ?_
  rintro - w₂ ⟨slots₂, hs₂, hev₂, hactive₂⟩
  exact ⟨slots₂, hs₂, hev₁.trans hev₂, fun ts' => (hactive₂ ts').trans (hactive₁ ts')⟩

end

/-! ## whole runs -/

variable (cfg env codec feed) in
/-- **The invariant**, for the slots the disk shows. -/
structure Good (s : Sys W R) (slots : Nat → Slot W) : Prop where
  shows : Shows env codec feed s.world slots
  sound : ∀ ts, (slots ts).Sound
  writing : ∀ ing, s.ingester = some ing → Writing cfg feed slots ing
  pending : ∀ path ∈ s.pending, ∃ ts, path = sealedSegment feed ts
  job : ∀ stage job, s.job = some (stage, job) → JobOk env codec feed slots stage job
  acked : ∀ record ∈ s.acked, ∃ ts, (slots ts).Holds record

/-- After a step of the ingester. -/
theorem Good.written {s : Sys W R} (h : Good cfg env codec feed s slots) {ing : Ingester}
    {m : Method W R Unit} {acked : List W}
    (hm : Written cfg env codec feed slots (m.after ⟨ing, s.world⟩) slots')
    (hacked : ∀ record ∈ acked, record ∈ s.acked ∨ ∃ ts, (slots' ts).Holds record) :
    Good cfg env codec feed { s.call ing m with acked := acked } slots' where
  shows := hm.shows
  sound := hm.evolves.sound h.sound
  writing := by
    intro ing' hing
    cases hing
    exact hm.writing
  pending := h.pending
  job stage job hjob := (h.job stage job hjob).evolves hm.evolves h.sound
  acked record hrecord := by
    rcases hacked record hrecord with hold | hnew
    · exact (h.acked record hold).imp fun ts => hm.evolves.holds h.sound
    · exact hnew

/-- After a step of the compactor or the collector. -/
theorem Good.maintained {s s' : Sys W R} (h : Good cfg env codec feed s slots)
    (hm : Maintains env codec feed slots s'.world slots') (hing : s'.ingester = s.ingester)
    (hacked : s'.acked = s.acked) (hpending : ∀ path ∈ s'.pending, path ∈ s.pending)
    (hjob : ∀ stage job, s'.job = some (stage, job) →
      JobOk env codec feed slots' stage job) :
    Good cfg env codec feed s' slots' where
  shows := hm.1
  sound := hm.2.1.sound h.sound
  writing := by
    intro ing hing' hopen
    rw [hing] at hing'
    obtain ⟨hfd, hcurrent, records, hrecords⟩ := h.writing ing hing' hopen
    exact ⟨hfd, hcurrent, records, (hm.2.2 _).trans hrecords⟩
  pending path hpath := h.pending path (hpending path hpath)
  job := hjob
  acked record hrecord := by
    rw [hacked] at hrecord
    exact (h.acked record hrecord).imp fun ts => hm.2.1.holds h.sound

theorem good_init {s : Sys W R} (h : (walMachine cfg env codec dual feed).init s) :
    Good cfg env codec feed s (fun _ => {}) := by
  obtain ⟨hfiles, hnas, hing, hpending, hjob, hacked⟩ := h
  have hnone : ∀ path, s.world.files.lookup path = none := by simp [hfiles]
  have hcopy : ∀ path c, ¬ Copy s.world path c := by simp [Copy, HoldsNas, hnone, hnas]
  refine ⟨⟨fun ts => ⟨hnone _, hnone _, ?_, fun _ target c _ => hcopy _ c, by simp⟩, ?_, ?_⟩,
    fun _ => ⟨by simp, by simp⟩, ?_, ?_, ?_, ?_⟩
  · exact congrArg Option.isSome (hnone _)
  · simp [OnlyOurs, hnone]
  · simp [Truthful, hnas]
  · simp [hing]
  · simp [hpending]
  · simp [hjob]
  · simp [hacked]

/-- One phase of a compaction. -/
theorem Good.compact {s : Sys W R} (h : Good cfg env codec feed s slots)
    (hjob : s.job = some (stage, job)) :
    ∃ slots', Good cfg env codec feed (s.compact codec dual stage job) slots' := by
  have hok := h.job stage job hjob
  have hnext : ∀ stage' (slots' : Nat → Slot W), JobOk env codec feed slots' stage' job →
      ∀ st j, some (stage', job) = some (st, j) → JobOk env codec feed slots' st j := by
    intro stage' slots' hj st j heq
    cases heq
    exact hj
  cases stage with
  | write =>
    obtain ⟨slots', hm, hj⟩ := writeSegment_post h.shows h.sound hok
    exact ⟨slots', h.maintained hm rfl rfl (fun _ hp => hp) (hnext .upload slots' hj)⟩
  | upload =>
    obtain ⟨slots', hm, hj⟩ := nasHook_post h.shows h.sound hok
    exact ⟨slots', h.maintained hm rfl rfl (fun _ hp => hp) (hnext .mark slots' hj)⟩
  | mark =>
    obtain ⟨slots', hm⟩ := markSegment_post h.shows hok
    exact ⟨slots', h.maintained hm rfl rfl (fun _ hp => hp) nofun⟩

omit [Blob (Content W R)] [Timed R] in
theorem jobOf_eq_some {r : Except Exn (Job R)} (h : jobOf r = some (stage, job)) :
    stage = .write ∧ r = .ok job := by
  cases r <;> simp_all [jobOf]

/-- The read that starts the compaction of the next segment. -/
theorem Good.beginSegment {s : Sys W R} (h : Good cfg env codec feed s slots)
    {rest : List Path} (hpending : s.pending = path :: rest) :
    Good cfg env codec feed (s.beginSegment env codec path rest) slots := by
  obtain ⟨ts, rfl⟩ := h.pending path (by rw [hpending]; exact List.mem_cons_self)
  have hpost := readSegment_post h.shows ts
  unfold Sys.beginSegment
  generalize readSegment env codec (sealedSegment feed ts) = m at hpost ⊢
  obtain ⟨hfiles, hnas, hjob⟩ := hpost
  refine h.maintained ⟨h.shows.of_same hnas hfiles, .refl slots, fun _ => rfl⟩ rfl rfl ?_ ?_
  · intro path' hmem
    rw [hpending]
    exact List.mem_cons_of_mem _ hmem
  · intro stage job hsome
    obtain ⟨rfl, hr⟩ := jobOf_eq_some hsome
    exact hjob job hr

/-- **Step lemma.** Every step that seals only under a free name keeps the invariant. -/
theorem Good.step {s s' : Sys W R} (h : Good cfg env codec feed s slots) {a : Action W}
    (hfree : SealsFree cfg env feed s a)
    (hstep : (walMachine cfg env codec dual feed).step s a = some s') :
    ∃ slots', Good cfg env codec feed s' slots' := by
  change s.step cfg env codec dual feed a = some s' at hstep
  cases a with
  | advance seconds =>
    cases hstep
    exact ⟨slots, h.shows, h.sound, h.writing, h.pending, h.job, h.acked⟩
  | create mono =>
    cases hstep
    obtain ⟨slots', hm⟩ := create_post (s := ⟨{}, s.world⟩) h.shows s.clock mono
    exact ⟨slots', h.written hm fun record hmem => Or.inl hmem⟩
  | append mono record =>
    obtain ⟨ing, hing, rfl⟩ := Option.map_eq_some_iff.mp hstep
    obtain ⟨slots', hm, hheld⟩ := append_post (s := ⟨ing, s.world⟩) h.shows (h.writing ing hing)
      s.clock mono record (hfree ing hing)
    refine ⟨slots', h.written hm fun record' hmem => ?_⟩
    by_cases hret : s.returns ing (append cfg feed s.clock mono record) = true
    · rw [if_pos hret, List.mem_cons] at hmem
      rcases hmem with rfl | hold
      · refine Or.inr (hheld ?_)
        unfold Sys.returns Eff.result at hret
        split at hret
        · assumption
        · cases hret
      · exact Or.inl hold
    · rw [if_neg hret] at hmem
      exact Or.inl hmem
  | flush mono =>
    obtain ⟨ing, hing, rfl⟩ := Option.map_eq_some_iff.mp hstep
    have hm := flush_post (s := ⟨ing, s.world⟩) h.shows (h.writing ing hing) mono
    exact ⟨slots, h.written hm fun record hmem => Or.inl hmem⟩
  | close =>
    obtain ⟨ing, hing, rfl⟩ := Option.map_eq_some_iff.mp hstep
    obtain ⟨slots', hm⟩ := close_post (s := ⟨ing, s.world⟩) h.shows (h.writing ing hing)
      fun hopen => hfree ing hing hopen trivial
    exact ⟨slots', h.written hm fun record hmem => Or.inl hmem⟩
  | scan =>
    cases hstep
    exact ⟨slots, h.shows, h.sound, h.writing, fun path hp => mem_scanSealed h.shows hp, nofun,
      h.acked⟩
  | beginSegment =>
    obtain ⟨path, rest, hpending, rfl⟩ := Sys.eq_of_step_beginSegment hstep
    exact ⟨slots, h.beginSegment hpending⟩
  | compact =>
    obtain ⟨⟨stage, job⟩, hjob, rfl⟩ := Option.map_eq_some_iff.mp hstep
    exact h.compact hjob
  | gc marker =>
    obtain ⟨hmem, rfl⟩ := Sys.eq_of_step_gc hstep
    obtain ⟨ts, rfl, hmarked⟩ := mem_markers h.shows hmem
    obtain ⟨slots', hm⟩ := gcOne_post h.shows hmarked
    refine ⟨slots', h.maintained hm rfl rfl (fun _ hp => hp) fun stage job hj => ?_⟩
    exact (h.job stage job hj).evolves hm.2.1 h.sound

/-- What the slots hold, the disk or the bucket holds. -/
theorem Shows.held (hs : Shows env codec feed w slots) {record : W}
    (h : (slots ts).Holds record) : Held env codec feed w record := by
  obtain ⟨records, hwhere, hmem⟩ := h
  refine ⟨ts, records, hmem, ?_⟩
  rcases hwhere with hactive | hsealed | harchived
  · simp [activeSegmentPath_eq, (hs.window ts).active, hactive]
  · refine Or.inr (Or.inl ?_)
    rw [sealedSegment_eq, (hs.window ts).sealed, hsealed]
    rfl
  · obtain ⟨target, table, htarget, htable, hcopy, -⟩ := (hs.window ts).present records harchived
    exact Or.inr (Or.inr ⟨target, table, htarget, htable, hcopy⟩)

/-- **No acknowledged record is lost while names are not used twice.** In every run of the
ingester, the compactor and the collector in which a segment is sealed only when no sealed
segment and no L1 file has its name, every record whose `append` returned is held. -/
theorem wal_keeps_acked_records {s : Sys W R}
    (h : (walMachine cfg env codec dual feed).Reaches (SealsFree cfg env feed) s) :
    ∀ record ∈ s.acked, Held env codec feed s.world record := by
  have hgood : ∃ slots, Good cfg env codec feed s slots := by
    refine h.invariant (I := fun s => ∃ slots, Good cfg env codec feed s slots) ?_ ?_
    · intro s hinit
      exact ⟨_, good_init hinit⟩
    · rintro s a s' ⟨slots, hs⟩ hfree hstep
      exact hs.step hfree hstep
  obtain ⟨slots, hs⟩ := hgood
  intro record hmem
  obtain ⟨ts, hholds⟩ := hs.acked record hmem
  exact hs.shows.held hholds

/-! ## one segment, and a second one of the same name -/

def feedA : Feed := ⟨"bithumb", "transaction", "BTC", "n1"⟩

def emptySys : Sys Int Int where
  world := ⟨∅, [], ∅, none, Stream'.const (.ok "etag" none), Stream'.const false⟩
  clock := 0

/-- The machine of the examples: segments of 300 seconds and no dual writer. -/
def machineA : Machine (Sys Int Int) (Action Int) :=
  walMachine .defaults tallyEnv plainCodec false feedA

/-- The state after some actions. -/
def sysAfter (actions : List (Action Int)) : Sys Int Int :=
  (machineA.run emptySys actions).getD emptySys

theorem machineA_init : machineA.init emptySys := ⟨rfl, rfl, rfl, rfl, rfl, rfl⟩

/-- A segment is sealed, compacted and collected after its grace, and after a restart another one
is sealed. -/
def collectedAndRestarted : List (Action Int) :=
  [.create 0, .append 0 5, .close, .scan, .beginSegment, .compact, .compact, .compact,
    .advance 86400, .gc (compactedPath (sealedSegment feedA 0)), .create 0, .append 0 6, .close]

/-- The first record is held by an L1 file then, the second by a sealed segment. -/
theorem wal_keeps_record_after_gc : ∃ s,
    machineA.guardedRun (SealsFree .defaults tallyEnv feedA) emptySys collectedAndRestarted =
        some s ∧
      s.acked = [6, 5] ∧ s.world.files.lookup (sealedSegment feedA 0) = none ∧
      ∀ record ∈ s.acked, Held tallyEnv plainCodec feedA s.world record := by
  have hrun : (machineA.guardedRun (SealsFree .defaults tallyEnv feedA) emptySys
      collectedAndRestarted).map (fun s =>
        (s.acked, (s.world.files.lookup (sealedSegment feedA 0)).isNone)) =
          some ([6, 5], true) := by
    decide +kernel
  obtain ⟨s, hs, heq⟩ := Option.map_eq_some_iff.mp hrun
  obtain ⟨hacked, hgone⟩ := Prod.mk.inj heq
  exact ⟨s, hs, hacked, Option.isNone_iff_eq_none.mp hgone,
    wal_keeps_acked_records (Machine.reaches_of_guardedRun (.init machineA_init) hs)⟩

/-- Append, close, and five seconds later create, append and close in the same window. -/
def restartInWindow : List (Action Int) :=
  [.create 0, .append 0 1, .close, .advance 5, .create 5, .append 5 2, .close]

/-- **A restart in the same window loses a record.** Both appends return; the second
segment is sealed over the first. -/
theorem wal_loses_record_on_restart :
    machineA.Reaches Machine.anyStep (sysAfter restartInWindow) ∧
      1 ∈ (sysAfter restartInWindow).acked ∧
      ¬ Held tallyEnv plainCodec feedA (sysAfter restartInWindow).world 1 := by
  have hrun : machineA.run emptySys restartInWindow = some (sysAfter restartInWindow) := rfl
  have hacked : (sysAfter restartInWindow).acked = [2, 1] := rfl
  have hfiles : (sysAfter restartInWindow).world.files =
      AList.singleton (segmentFile feedA 0 ".ndjson.sealed") (.ndjson [2]) := rfl
  have hnas : (sysAfter restartInWindow).world.nas = ∅ := rfl
  refine ⟨Machine.reaches_of_run (.init machineA_init) hrun, by rw [hacked]; decide, ?_⟩
  -- the only file left is the sealed segment with the second record
  have honly : ∀ path c, (sysAfter restartInWindow).world.files.lookup path = some c →
      c = .ndjson [2] := by
    intro path c hc
    exact (lookup_singleton_eq_some hc).2
  rintro ⟨ts, records, hmem, hactive | hsealed | ⟨target, table, -, -, hlocal | ⟨o, ho, -⟩⟩⟩
  · cases honly _ _ hactive
    exact absurd hmem (by decide)
  · cases honly _ _ hsealed
    exact absurd hmem (by decide)
  · cases honly _ _ hlocal
  · cases ho

end MctraderData.Wal
