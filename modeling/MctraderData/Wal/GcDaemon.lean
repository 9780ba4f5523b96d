import Mathlib.Tactic.Linarith
import MctraderData.Wal.NoLoss

/-!
# mctrader-data — two garbage collectors over one WAL

Model of `compactor/gc_daemon.py` beside `compactor/gc.py`. Both walk the markers
`.ndjson.sealed.compacted` below `wal/` and delete the sealed segment of an old one.
`run_gc`, which every tick of the compactor calls, has one grace period of 24 hours.
`run_gc_with_extension` keeps a segment whose archive failed, which a sentinel
`._archive_failed` beside it says, for seven days.

* `archive_failed_grace` — what holds in every interleaving of the two, and when
* `run_gc_ignores_sentinel` — the two ways it fails
-/

namespace MctraderData.Wal

open Lib Eff
open Nas
open Compactor (hasSuffix hasSuffix_append)

/-! ## run_gc_with_extension -/

/-- `NORMAL_GRACE_SECONDS` -/
def normalGraceSeconds : ℚ := 86400

/-- `ARCHIVE_FAILED_GRACE_SECONDS` -/
def archiveFailedGraceSeconds : ℚ := 86400 * 7

/-- `archive_failed_sentinel` -/
def archiveFailedSentinel (sealedPath : Path) : Path := withSuffix sealedPath "._archive_failed"

/-- The argument of `on_op_risk_alert`. -/
structure OpRiskAlert where
  reason : String
  segment : Path
  ageSeconds : ℚ
deriving DecidableEq

variable {C : Type} [Blob C]

/-- `_delete_segment`: each file on its own, and a failure is logged only. -/
def deleteSegment (sealedPath compacted : Path) (sentinel : Option Path) : Prog C Unit :=
  forEach ([sealedPath, compacted] ++ sentinel.toList) fun path =>
    tryCatch (unlinkIfExists path) fun _ => pure ()

/-- The grace period of a marker: the sentinel of its segment extends it. -/
def graceOf (w : World C) (compacted : Path) : ℚ :=
  if (w.files.lookup (archiveFailedSentinel (sealedOf compacted))).isSome then
    archiveFailedGraceSeconds
  else normalGraceSeconds

variable {w : World C}

theorem graceOf_sentinel {compacted : Path}
    (h : (w.files.lookup (archiveFailedSentinel (sealedOf compacted))).isSome) :
    graceOf w compacted = archiveFailedGraceSeconds :=
  if_pos h

/-- One marker of `run_gc_with_extension`, with the alert it sends. A marker that is gone
when `stat` looks at it is passed over. -/
def gcExtOne (now : ℚ) (mtime : Path → ℚ) (compacted : Path) :
    Prog C (Option OpRiskAlert) := do
  let w ← get
  if (w.files.lookup compacted).isNone then pure none
  else
    let sealedPath := sealedOf compacted
    let sentinel := archiveFailedSentinel sealedPath
    let age := now - mtime compacted
    if (w.files.lookup sentinel).isSome then
      if archiveFailedGraceSeconds ≤ age then
        deleteSegment sealedPath compacted (some sentinel)
        pure (some ⟨"archive_failed_7d_expired", sealedPath, age⟩)
      else pure none
    else
      if normalGraceSeconds ≤ age then
        deleteSegment sealedPath compacted none
      pure none

/-- The loop of `run_gc_with_extension`, with the alerts sent. -/
def gcExtLoop (now : ℚ) (mtime : Path → ℚ) : List Path → Prog C (List OpRiskAlert)
  | [] => pure []
  | compacted :: rest => do
    let alert ← gcExtOne now mtime compacted
    let alerts ← gcExtLoop now mtime rest
    pure (alert.toList ++ alerts)

/-- `run_gc_with_extension` at the time `now`. -/
def runGcWithExtension (now : ℚ) (mtime : Path → ℚ) : Prog C (List OpRiskAlert) := do
  let w ← get
  gcExtLoop now mtime (rglobWal w ".ndjson.sealed.compacted")

/-! ## names -/

/-- The path of a sealed segment. -/
def IsSealed (path : Path) : Prop :=
  path ≠ [] ∧ hasSuffix ".ndjson.sealed" (path.getLastD "") = true

/-- The path of a marker. -/
def IsMarker (path : Path) : Prop :=
  path ≠ [] ∧ hasSuffix ".ndjson.sealed.compacted" (path.getLastD "") = true

instance (path : Path) : Decidable (IsSealed path) := inferInstanceAs (Decidable (_ ∧ _))

instance (path : Path) : Decidable (IsMarker path) := inferInstanceAs (Decidable (_ ∧ _))

/-- A name with two suffixes has one inside the other. -/
theorem suffix_or_suffix_of_hasSuffix {s s' name : String} (h : hasSuffix s name = true)
    (h' : hasSuffix s' name = true) : s.toList <:+ s'.toList ∨ s'.toList <:+ s.toList :=
  List.suffix_or_suffix_of_suffix (List.isSuffixOf_iff_suffix.mp h)
    (List.isSuffixOf_iff_suffix.mp h')

theorem hasSuffix_withSuffix (path : Path) (suffix : String) :
    hasSuffix suffix ((withSuffix path suffix).getLastD "") = true := by
  rw [withSuffix, List.getLastD_concat]
  exact hasSuffix_append _ _

variable {path : Path}

theorem IsSealed.marker (h : IsSealed path) : IsMarker (compactedPath path) := by
  refine ⟨by simp [compactedPath, withSuffix], ?_⟩
  obtain ⟨stem, hstem⟩ := List.isSuffixOf_iff_suffix.mp h.2
  rw [compactedPath, withSuffix, List.getLastD_concat]
  refine List.isSuffixOf_iff_suffix.mpr ⟨stem, ?_⟩
  rw [String.toList_append, ← hstem, List.append_assoc]
  rfl

variable {marker : Path}

theorem IsSealed.ne_marker (h : IsSealed path) (hm : IsMarker marker) : path ≠ marker := by
  rintro rfl
  exact absurd (suffix_or_suffix_of_hasSuffix h.2 hm.2) (by decide)

theorem IsSealed.ne_sentinel (h : IsSealed path) (sealedPath : Path) :
    path ≠ archiveFailedSentinel sealedPath := by
  rintro rfl
  exact absurd (suffix_or_suffix_of_hasSuffix h.2 (hasSuffix_withSuffix _ _)) (by decide)

theorem IsMarker.ne_sentinel (h : IsMarker path) (sealedPath : Path) :
    path ≠ archiveFailedSentinel sealedPath := by
  rintro rfl
  exact absurd (suffix_or_suffix_of_hasSuffix h.2 (hasSuffix_withSuffix _ _)) (by decide)

/-- The sealed segment of a segment's marker is the segment. -/
theorem sealedOf_compactedPath (h : path ≠ []) :
    sealedOf (compactedPath path) = path := by
  rw [sealedOf, compactedPath, withSuffix, List.dropLast_concat, List.getLastD_concat,
    removeSuffix_append, Option.getD_some, List.getLastD_eq_getLast?,
    List.getLast?_eq_some_getLast h]
  exact List.dropLast_append_getLast h

/-- The marker of a marker's segment is the marker. -/
theorem IsMarker.compactedPath_sealedOf (h : IsMarker marker) :
    compactedPath (sealedOf marker) = marker ∧ IsSealed (sealedOf marker) := by
  obtain ⟨hne, hsuffix⟩ := h
  obtain ⟨stem, hstem⟩ := List.isSuffixOf_iff_suffix.mp hsuffix
  have hname : marker.getLastD "" = String.ofList stem ++ ".ndjson.sealed" ++ ".compacted" := by
    apply String.toList_injective
    rw [← hstem]
    simp
  have hsealed : sealedOf marker = marker.dropLast ++ [String.ofList stem ++ ".ndjson.sealed"] := by
    rw [sealedOf, hname, removeSuffix_append, Option.getD_some]
  refine ⟨?_, ?_, ?_⟩
  · rw [compactedPath, withSuffix, hsealed, List.dropLast_concat, List.getLastD_concat, ← hname,
      List.getLastD_eq_getLast?, List.getLast?_eq_some_getLast hne]
    exact List.dropLast_append_getLast hne
  · simp [hsealed]
  · rw [hsealed, List.getLastD_concat]
    exact hasSuffix_append _ _

/-! ## what one marker's deletion can do -/

/-- Files are only removed, and only those in `S`. -/
def Removes (S : Path → Prop) (w w' : World C) : Prop :=
  ∀ path, w'.files.lookup path = w.files.lookup path ∨ S path ∧ w'.files.lookup path = none

section

variable {S S' : Path → Prop} {w w' w'' : World C} {path : Path}

section

variable (h : Removes S w w')
include h

theorem Removes.mono (hS : ∀ path, S path → S' path) : Removes S' w w' :=
  fun path => (h path).imp_right fun hpath => ⟨hS path hpath.1, hpath.2⟩

theorem Removes.trans (h' : Removes S w' w'') : Removes S w w'' := by
  intro path
  rcases h' path with hsame | hgone
  · rw [hsame]
    exact h path
  · exact Or.inr hgone

theorem Removes.absent (hnone : w.files.lookup path = none) : w'.files.lookup path = none := by
  rcases h path with hsame | hgone
  · rw [hsame, hnone]
  · exact hgone.2

/-- A file that is there afterwards was there before. -/
theorem Removes.present (hsome : (w'.files.lookup path).isSome) : (w.files.lookup path).isSome := by
  rw [Option.isSome_iff_ne_none] at hsome ⊢
  exact fun hnone => hsome (h.absent hnone)

/-- A file that is gone afterwards is one of those in `S`. -/
theorem Removes.mem (hsome : (w.files.lookup path).isSome) (hnone : w'.files.lookup path = none) :
    S path := by
  rcases h path with hsame | hgone
  · simp [← hsame, hnone] at hsome
  · exact hgone.1

end

theorem removes_erase (w : World C) (path : Path) (faults : Stream' Bool) :
    Removes (· = path) w
      { w with files := w.files.erase path, unlinkFaults := faults } := by
  intro other
  rcases eq_or_ne other path with rfl | hother
  · exact Or.inr ⟨rfl, AList.lookup_erase _ _⟩
  · exact Or.inl (AList.lookup_erase_ne hother)

/-- `unlink` under `if path.exists()`: the file is gone unless the removal was refused. -/
theorem unlinkIfExists_post (path : Path) (w : World C) :
    wp (unlinkIfExists path) (fun r w' => Removes (· = path) w w' ∧
      (r = .ok () → w'.files.lookup path = none) ∧
      (((w.files.lookup path).isSome → w.unlinkFaults.head = false) → r = .ok ())) w := by
  unfold unlinkIfExists
  rw [wp_bind, wp_get]
  simp only []
  split
  · rename_i hsome
    obtain ⟨c, hc⟩ := Option.isSome_iff_exists.mp hsome
    simp only [unlink, wp_bind, wp_get, wp_set]
    cases hhead : w.unlinkFaults.head with
    | true =>
      exact ⟨fun _ => Or.inl rfl, fun h => (by cases h), fun hcalm => by cases hcalm hsome⟩
    | false =>
      simp only [Bool.false_eq_true, if_false, hc]
      exact ⟨removes_erase w path _, fun _ => AList.lookup_erase _ _, fun _ => rfl⟩
  · rename_i hnone
    rw [Option.not_isSome_iff_eq_none] at hnone
    exact ⟨fun _ => Or.inl rfl, fun _ => hnone, fun _ => rfl⟩

theorem unlink_removes (path : Path) (w : World C) :
    wp (unlink path) (fun _ w' => Removes (· = path) w w') w := by
  simp only [unlink, wp_bind, wp_get, wp_set]
  iterate 2
    split
    · exact fun _ => Or.inl rfl
  exact removes_erase w path _

/-- `run_gc` never removes a marker and leaves its segment. -/
theorem gcOne_removes (marker : Path) (w : World C) :
    wp (gcOne marker) (fun r w' => r = .ok () ∧
      Removes (fun path => path = sealedOf marker ∨ path = marker) w w' ∧
      ((w.files.lookup marker).isSome → w'.files.lookup marker = none →
        w'.files.lookup (sealedOf marker) = none)) w := by
  refine wp_catch (P := fun _ w' =>
    Removes (fun path => path = sealedOf marker ∨ path = marker) w w' ∧
      ((w.files.lookup marker).isSome → w'.files.lookup marker = none →
        w'.files.lookup (sealedOf marker) = none)) ?_ (fun _ _ h => ⟨rfl, h⟩) fun _ _ h => ⟨rfl, h⟩
  refine wp_seq (unlinkIfExists_post _ w) ?_ ?_
  · rintro _ w₁ ⟨hremoves, hgone, -⟩
    refine wp_mono (unlink_removes marker w₁) fun _ w₂ hremoves₂ => ⟨?_, fun _ _ => ?_⟩
    · exact (hremoves.mono fun _ => Or.inl).trans (hremoves₂.mono fun _ => Or.inr)
    · exact hremoves₂.absent (hgone rfl)
  · rintro _ w₁ ⟨hremoves, -, -⟩
    refine ⟨hremoves.mono fun _ => Or.inl, fun hsome hnone => ?_⟩
    -- nothing but the segment was removed, so the marker is the segment
    rw [← hremoves.mem hsome hnone]
    exact hnone

/-- `_delete_segment` leaves no segment, unless its removal is refused. -/
theorem deleteSegment_removes (sealedPath compacted : Path) (sentinel : Option Path) (w : World C) :
    wp (deleteSegment sealedPath compacted sentinel) (fun r w' => r = .ok () ∧
      Removes (fun path => path ∈ [sealedPath, compacted] ++ sentinel.toList) w w' ∧
      (((w.files.lookup sealedPath).isSome → w.unlinkFaults.head = false) →
        w'.files.lookup sealedPath = none)) w := by
  have hone : ∀ path (w₁ : World C), wp (tryCatch (unlinkIfExists path) fun _ => pure ())
      (fun r w₂ => r = .ok () ∧ Removes (· = path) w₁ w₂ ∧
        (((w₁.files.lookup path).isSome → w₁.unlinkFaults.head = false) →
          w₂.files.lookup path = none)) w₁ := by
    intro path w₁
    refine wp_catch (unlinkIfExists_post path w₁) ?_ ?_
    · rintro _ w₂ ⟨hremoves, hgone, -⟩
      exact ⟨rfl, hremoves, fun _ => hgone rfl⟩
    · rintro e w₂ ⟨hremoves, -, hcalm⟩
      exact ⟨rfl, hremoves, fun h => nomatch hcalm h⟩
  unfold deleteSegment
  generalize hrest : compacted :: sentinel.toList = rest
  have hlist : [sealedPath, compacted] ++ sentinel.toList = sealedPath :: rest := hrest ▸ rfl
  rw [hlist, forEach]
  refine wp_seq (hone sealedPath w) ?_ fun e w₁ h => nomatch h.1
  rintro _ w₁ ⟨-, hremoves, hgone⟩
  have hloop : wp (forEach rest fun path =>
      tryCatch (unlinkIfExists path) fun _ => pure ())
      (fun r w₂ => r = .ok () ∧ Removes (· ∈ [] ++ rest) w₁ w₂) w₁ := by
    refine wp_forEach_done (I := fun done w₂ => Removes (· ∈ done) w₁ w₂) ?_ []
      fun _ => Or.inl rfl
    intro done path w₂ hdone
    refine wp_mono (hone path w₂) ?_
    rintro r w₃ ⟨hok, hpath, -⟩
    refine ⟨hok, (hdone.mono fun _ h => List.mem_append_left _ h).trans (hpath.mono ?_)⟩
    rintro _ rfl
    exact List.mem_append_right _ List.mem_cons_self
  refine wp_mono hloop ?_
  rintro r w₂ ⟨hok, hafter⟩
  refine ⟨hok, ?_, fun hcalm => hafter.absent (hgone hcalm)⟩
  refine (hremoves.mono ?_).trans (hafter.mono fun _ h => List.mem_cons_of_mem _ h)
  rintro _ rfl
  exact List.mem_cons_self

/-- What `run_gc_with_extension` does to the files of one marker. -/
inductive ExtPost (now : ℚ) (mtime : Path → ℚ) (marker : Path) (w w' : World C) : Prop
  | kept : w' = w → ExtPost now mtime marker w w'
  | deleted : graceOf w marker ≤ now - mtime marker →
      Removes (fun path => path = sealedOf marker ∨ path = marker ∨
        path = archiveFailedSentinel (sealedOf marker)) w w' →
      (((w.files.lookup (sealedOf marker)).isSome → w.unlinkFaults.head = false) →
        w'.files.lookup (sealedOf marker) = none) → ExtPost now mtime marker w w'

/-- A deletion after the grace, with or without the sentinel. -/
theorem deleteSegment_extPost {now : ℚ} {mtime : Path → ℚ} {w : World C} {sentinel : Option Path}
    {alert : Option OpRiskAlert} (hage : graceOf w marker ≤ now - mtime marker)
    (hsentinel : ∀ path ∈ sentinel, path = archiveFailedSentinel (sealedOf marker)) :
    wp (do
      deleteSegment (sealedOf marker) marker sentinel
      pure alert) (fun r w' => (∃ alert, r = .ok alert) ∧ ExtPost now mtime marker w w') w := by
  refine wp_seq (deleteSegment_removes _ _ _ w) ?_ fun e w₁ h => nomatch h.1
  rintro _ w₁ ⟨-, hremoves, hgone⟩
  refine ⟨⟨_, rfl⟩, .deleted hage (hremoves.mono fun path hpath => ?_) hgone⟩
  rcases List.mem_append.mp hpath with hpair | hopt
  · have hpair : path = sealedOf marker ∨ path = marker := by simpa using hpair
    exact hpair.imp_right Or.inl
  · exact Or.inr (Or.inr (hsentinel path (Option.mem_toList.mp hopt)))

theorem gcExtOne_post (now : ℚ) (mtime : Path → ℚ) (marker : Path) (w : World C) :
    wp (gcExtOne now mtime marker)
      (fun r w' => (∃ alert, r = .ok alert) ∧ ExtPost now mtime marker w w') w := by
  unfold gcExtOne
  rw [wp_bind, wp_get]
  simp only []
  split
  · exact ⟨⟨_, rfl⟩, .kept rfl⟩
  split
  · rename_i hsentinel
    split
    · rename_i hage
      refine deleteSegment_extPost ?_ fun path hpath => (Option.mem_some.mp hpath).symm
      rw [graceOf_sentinel hsentinel]
      exact hage
    · exact ⟨⟨_, rfl⟩, .kept rfl⟩
  · rename_i hsentinel
    split
    · rename_i hage
      refine deleteSegment_extPost ?_ nofun
      rw [graceOf, if_neg hsentinel]
      exact hage
    · exact ⟨⟨_, rfl⟩, .kept rfl⟩

end

/-! ## runs -/

/-- The disk, the times of the markers, and the segments compacted since they were
sealed. -/
structure GcState (C : Type) [Blob C] where
  world : World C
  clock : ℚ
  /-- `st_mtime` of the markers. -/
  mtime : Path → ℚ
  compacted : List Path

/-- A collector takes its `now` when its pass starts, so that `now` may lie behind the
clock. -/
inductive GcAction (C : Type) where
  | advance (seconds : ℚ)
  /-- A segment is sealed. -/
  | sealSegment (path : Path) (c : C)
  /-- The compactor is done with a sealed segment and touches its marker. -/
  | mark (path : Path) (empty : C)
  /-- A file that is no sealed segment and no marker, such as a sentinel. -/
  | write (path : Path) (c : C)
  | remove (path : Path)
  /-- `run_gc` comes to a marker that is past the grace period. -/
  | gc (now : ℚ) (marker : Path)
  /-- `run_gc_with_extension` comes to a marker. -/
  | gcExt (now : ℚ) (marker : Path)

/-- Is the file there? -/
def GcState.has (s : GcState C) (path : Path) : Bool := (s.world.files.lookup path).isSome

/-- The marker that `touch` makes; one that is there keeps its time. -/
def GcState.mark (s : GcState C) (path : Path) (empty : C) : GcState C :=
  if s.has (compactedPath path) then { s with compacted := path :: s.compacted }
  else
    { s with
      world := { s.world with files := s.world.files.insert (compactedPath path) empty }
      mtime := Function.update s.mtime (compactedPath path) s.clock
      compacted := path :: s.compacted }

/-- Is a marker past the grace period of `run_gc`? -/
def GcState.expired (s : GcState C) (now : ℚ) (marker : Path) : Bool :=
  decide ((graceSeconds : ℚ) ≤ now - s.mtime marker)

/-- The collectors, the compactor and the archive over one `wal/`, one marker at a time.
Which `unlink` calls fail is in the initial state. -/
def gcMachine : Machine (GcState C) (GcAction C) where
  init s := ∀ path ∈ s.compacted, IsSealed path ∧ s.has (compactedPath path) = true
  step s
    | .advance seconds => if 0 ≤ seconds then some { s with clock := s.clock + seconds } else none
    | .sealSegment path c =>
      if IsSealed path then
        some { s with
          world := { s.world with files := s.world.files.insert path c }
          compacted := s.compacted.filter (· ≠ path) }
      else none
    | .mark path empty =>
      if IsSealed path ∧ s.has path = true then some (s.mark path empty) else none
    | .write path c =>
      if IsSealed path ∨ IsMarker path then none
      else some { s with world := { s.world with files := s.world.files.insert path c } }
    | .remove path =>
      if IsSealed path ∨ IsMarker path then none
      else some { s with world := { s.world with files := s.world.files.erase path } }
    | .gc now marker =>
      if now ≤ s.clock ∧ marker ∈ rglobWal s.world ".ndjson.sealed.compacted" ∧
          s.expired now marker = true then
        some { s with world := (gcOne marker).after s.world }
      else none
    | .gcExt now marker =>
      if now ≤ s.clock ∧ IsMarker marker then
        some { s with world := (gcExtOne now s.mtime marker).after s.world }
      else none

/-- A step deletes a sealed segment with a sentinel only when its marker is seven days
old. -/
def GraceKept (s s' : GcState C) : Prop :=
  ∀ path, IsSealed path → s.has path = true → s.has (archiveFailedSentinel path) = true →
    s'.has path = false → archiveFailedGraceSeconds ≤ s.clock - s.mtime (compactedPath path)

/-- A sealed segment that was compacted has its marker. -/
def MarkersKept (s : GcState C) : Prop :=
  ∀ path ∈ s.compacted, s.has path = true → s.has (compactedPath path) = true

/-- The condition on a step: `run_gc` does not come to a segment with a sentinel in its
first seven days, and `run_gc_with_extension` is not refused the removal of a sealed
segment. -/
def calmGc (s : GcState C) : GcAction C → Prop
  | .gc now marker => s.has (sealedOf marker) = true →
      s.has (archiveFailedSentinel (sealedOf marker)) = true →
      archiveFailedGraceSeconds ≤ now - s.mtime marker
  | .gcExt now marker => graceOf s.world marker ≤ now - s.mtime marker →
      s.has (sealedOf marker) = true → s.world.unlinkFaults.head = false
  | _ => True

section

variable {s s' : GcState C} {path marker : Path} {now : ℚ}

theorem isMarker_of_mem_rglobWal (h : marker ∈ rglobWal w ".ndjson.sealed.compacted") :
    IsMarker marker ∧ (w.files.lookup marker).isSome := by
  obtain ⟨hkey, hname⟩ := List.mem_filter.mp h
  simp only [Bool.and_eq_true, decide_eq_true_eq] at hname
  refine ⟨⟨?_, hname.2⟩, AList.lookup_isSome.mpr hkey⟩
  rintro rfl
  exact absurd hname.1.2 (by decide)

theorem GcState.has_eq_false : s.has path = false ↔ s.world.files.lookup path = none := by
  rw [has, Option.isSome_eq_false_iff, Option.isNone_iff_eq_none]

/-- What holds between the steps. -/
structure GcInv (s : GcState C) : Prop where
  isSealed : ∀ path ∈ s.compacted, IsSealed path
  markers : MarkersKept s

/-- No sealed segment goes. -/
theorem graceKept_of_present (h : ∀ path, IsSealed path → s.has path = true → s'.has path = true) :
    GraceKept s s' := by
  intro path hsealed hhas _ hgone
  simp [h path hsealed hhas] at hgone

section

variable (h : GcInv s)
include h

/-- Segments and markers stay as they are. -/
theorem GcInv.frame (hcompacted : s'.compacted = s.compacted)
    (hhas : ∀ path, IsSealed path ∨ IsMarker path → s'.has path = s.has path) :
    GcInv s' ∧ GraceKept s s' := by
  refine ⟨⟨hcompacted ▸ h.isSealed, fun path hpath hpresent => ?_⟩, ?_⟩
  · rw [hcompacted] at hpath
    have hsealed := h.isSealed path hpath
    rw [hhas path (Or.inl hsealed)] at hpresent
    rw [hhas _ (Or.inr hsealed.marker)]
    exact h.markers path hpath hpresent
  · exact graceKept_of_present fun path hsealed hpresent =>
      (hhas path (Or.inl hsealed)).trans hpresent

/-- A step of a collector on one marker: a marker goes only with its segment, and a
segment with a sentinel goes only after seven days. -/
theorem GcInv.collect (hcompacted : s'.compacted = s.compacted) (hmarker : IsMarker marker)
    (hremoves : Removes (fun path => path = sealedOf marker ∨ path = marker ∨
      path = archiveFailedSentinel (sealedOf marker)) s.world s'.world)
    (hlast : s.has marker = true → s'.has marker = false → s'.has (sealedOf marker) = false)
    (hgrace : s.has (sealedOf marker) = true →
      s.has (archiveFailedSentinel (sealedOf marker)) = true →
      archiveFailedGraceSeconds ≤ s.clock - s.mtime marker) : GcInv s' ∧ GraceKept s s' := by
  obtain ⟨hback, hsealedOf⟩ := hmarker.compactedPath_sealedOf
  refine ⟨⟨hcompacted ▸ h.isSealed, fun path hpath hpresent => ?_⟩, ?_⟩
  · rw [hcompacted] at hpath
    have hsealed := h.isSealed path hpath
    have hbefore := h.markers path hpath (hremoves.present hpresent)
    by_contra hgone
    rw [Bool.not_eq_true] at hgone
    -- of the files that may go, only the marker itself is a marker
    have hsame : compactedPath path = marker := by
      rcases hremoves.mem hbefore (GcState.has_eq_false.mp hgone) with heq | heq | heq
      · exact absurd heq.symm (hsealedOf.ne_marker hsealed.marker)
      · exact heq
      · exact absurd heq (hsealed.marker.ne_sentinel _)
    rw [hsame] at hbefore hgone
    have hnone := hlast hbefore hgone
    simp [← hsame, sealedOf_compactedPath hsealed.1, hpresent] at hnone
  · intro path hsealed hhas hsentinel hgone
    have hsame : path = sealedOf marker := by
      rcases hremoves.mem hhas (GcState.has_eq_false.mp hgone) with heq | heq | heq
      · exact heq
      · exact absurd heq (hsealed.ne_marker hmarker)
      · exact absurd heq (hsealed.ne_sentinel _)
    subst hsame
    rw [hback]
    exact hgrace hhas hsentinel

/-- A segment is sealed; one that was there is replaced. -/
theorem GcInv.seal (hpath : IsSealed path) (c : C)
    (hcompacted : s'.compacted = s.compacted.filter (· ≠ path))
    (hworld : s'.world = { s.world with files := s.world.files.insert path c }) :
    GcInv s' ∧ GraceKept s s' := by
  have hother : ∀ other, other ≠ path → s'.has other = s.has other := by
    intro other hne
    rw [GcState.has, hworld]
    exact congrArg Option.isSome (AList.lookup_insert_ne hne)
  have hmem : ∀ other ∈ s'.compacted, other ∈ s.compacted ∧ other ≠ path := by
    intro other hin
    rw [hcompacted] at hin
    simpa using List.mem_filter.mp hin
  refine ⟨⟨fun other hin => h.isSealed other (hmem other hin).1, fun other hin hpresent => ?_⟩, ?_⟩
  · obtain ⟨hold, hne⟩ := hmem other hin
    rw [hother other hne] at hpresent
    rw [hother _ (hpath.ne_marker (h.isSealed other hold).marker).symm]
    exact h.markers other hold hpresent
  · refine graceKept_of_present fun other _ hpresent => ?_
    by_cases hne : other = path
    · rw [hne, GcState.has, hworld]
      exact congrArg Option.isSome (AList.lookup_insert _)
    · rw [hother other hne]
      exact hpresent

/-- A segment is marked as compacted. -/
theorem GcInv.mark (hpath : IsSealed path) (empty : C) :
    GcInv (s.mark path empty) ∧ GraceKept s (s.mark path empty) := by
  have hcompacted : (s.mark path empty).compacted = path :: s.compacted := by
    unfold GcState.mark
    split <;> rfl
  have hmarker : (s.mark path empty).has (compactedPath path) = true := by
    unfold GcState.mark
    split
    · assumption
    · exact congrArg Option.isSome (AList.lookup_insert _)
  have hother : ∀ other, other ≠ compactedPath path →
      (s.mark path empty).has other = s.has other := by
    intro other hne
    unfold GcState.mark
    split
    · rfl
    · exact congrArg Option.isSome (AList.lookup_insert_ne hne)
  refine ⟨⟨fun other hin => ?_, fun other hin hpresent => ?_⟩, ?_⟩
  · rw [hcompacted, List.mem_cons] at hin
    rcases hin with rfl | hin
    · exact hpath
    · exact h.isSealed other hin
  · by_cases hsame : compactedPath other = compactedPath path
    · rw [hsame]
      exact hmarker
    rw [hcompacted, List.mem_cons] at hin
    rcases hin with rfl | hin
    · exact absurd rfl hsame
    rw [hother other ((h.isSealed other hin).ne_marker hpath.marker)] at hpresent
    rw [hother _ hsame]
    exact h.markers other hin hpresent
  · refine graceKept_of_present fun other hsealed hpresent => ?_
    rw [hother other (hsealed.ne_marker hpath.marker)]
    exact hpresent

/-- `run_gc` comes to an expired marker. -/
theorem GcInv.gc (hnow : now ≤ s.clock)
    (hmem : marker ∈ rglobWal s.world ".ndjson.sealed.compacted")
    (hcalm : calmGc s (.gc now marker)) :
    GcInv { s with world := (gcOne marker).after s.world } ∧
      GraceKept s { s with world := (gcOne marker).after s.world } := by
  obtain ⟨-, hremoves, hlast⟩ := gcOne_removes marker s.world
  refine h.collect rfl (isMarker_of_mem_rglobWal hmem).1
    (hremoves.mono fun path hpath => hpath.imp_right Or.inl) ?_ ?_
  · intro hhas hgone
    exact GcState.has_eq_false.mpr (hlast hhas (GcState.has_eq_false.mp hgone))
  · intro hhas hsentinel
    have hage := hcalm hhas hsentinel
    linarith

/-- `run_gc_with_extension` comes to a marker. -/
theorem GcInv.gcExt (hnow : now ≤ s.clock) (hmarker : IsMarker marker)
    (hcalm : calmGc s (.gcExt now marker)) :
    GcInv { s with world := (gcExtOne now s.mtime marker).after s.world } ∧
      GraceKept s { s with world := (gcExtOne now s.mtime marker).after s.world } := by
  obtain ⟨-, hpost⟩ := gcExtOne_post now s.mtime marker s.world
  generalize hafter : (gcExtOne now s.mtime marker).after s.world = w' at *
  rw [show (gcExtOne now s.mtime marker s.world).2 = w' from hafter] at hpost
  cases hpost with
  | kept hsame =>
    subst hsame
    exact h.frame rfl fun _ _ => rfl
  | deleted hage hremoves hgone =>
    refine h.collect rfl hmarker hremoves ?_ ?_
    · intro _ _
      exact GcState.has_eq_false.mpr (hgone (hcalm hage))
    · intro _ hsentinel
      rw [graceOf_sentinel hsentinel] at hage
      linarith

/-- A step that meets the condition. -/
theorem GcInv.step {a : GcAction C} (hcalm : calmGc s a) (hstep : gcMachine.step s a = some s') :
    GcInv s' ∧ GraceKept s s' := by
  cases a <;> simp only [gcMachine, Option.ite_none_right_eq_some, Option.ite_none_left_eq_some,
    Option.some.injEq] at hstep
  case advance seconds =>
    obtain ⟨-, rfl⟩ := hstep
    exact h.frame rfl fun _ _ => rfl
  case sealSegment path c =>
    obtain ⟨hpath, rfl⟩ := hstep
    exact h.seal hpath c rfl rfl
  case mark path empty =>
    obtain ⟨⟨hpath, -⟩, rfl⟩ := hstep
    exact h.mark hpath empty
  case write path c =>
    obtain ⟨hpath, rfl⟩ := hstep
    refine h.frame rfl fun other hother => ?_
    have hne : other ≠ path := fun heq => hpath (heq ▸ hother)
    exact congrArg Option.isSome (AList.lookup_insert_ne hne)
  case remove path =>
    obtain ⟨hpath, rfl⟩ := hstep
    refine h.frame rfl fun other hother => ?_
    have hne : other ≠ path := fun heq => hpath (heq ▸ hother)
    exact congrArg Option.isSome (AList.lookup_erase_ne hne)
  case gc now marker =>
    obtain ⟨⟨hnow, hmem, -⟩, rfl⟩ := hstep
    exact h.gc hnow hmem hcalm
  case gcExt now marker =>
    obtain ⟨⟨hnow, hmarker⟩, rfl⟩ := hstep
    exact h.gcExt hnow hmarker hcalm

end

/-- **Archive-failed grace**, in every interleaving of the two collectors in which
`run_gc` does not come to a segment whose archive failed before seven days are over, and
`run_gc_with_extension` can remove the segments it is to remove. -/
theorem archive_failed_grace (h : gcMachine.Reaches calmGc s) :
    MarkersKept s ∧
      ∀ a s', calmGc s a → gcMachine.step s a = some s' → GraceKept s s' := by
  have hinv : GcInv s := by
    refine h.invariant (I := GcInv) ?_ fun s a s' hinv hcalm ha => (hinv.step hcalm ha).1
    intro s hinit
    exact ⟨fun path hpath => (hinit path hpath).1, fun path hpath _ => (hinit path hpath).2⟩
  exact ⟨hinv.markers, fun a s' hcalm ha => (hinv.step hcalm ha).2⟩

/-! ## whole passes -/

theorem gcOne_eq (marker : Path) (w : World C) :
    gcOne marker w = (.ok (), (gcOne marker).after w) :=
  Prod.ext (gcOne_removes marker w).1 rfl

/-- A marker does not disappear when `run_gc` deals with another one. -/
theorem mem_rglobWal_gcOne {other : Path} (hmarker : IsMarker marker) (hne : other ≠ marker)
    (h : other ∈ rglobWal w ".ndjson.sealed.compacted") :
    other ∈ rglobWal ((gcOne marker).after w) ".ndjson.sealed.compacted" := by
  obtain ⟨hother, hpresent⟩ := isMarker_of_mem_rglobWal h
  refine List.mem_filter.mpr ⟨AList.lookup_isSome.mp ?_, (List.mem_filter.mp h).2⟩
  obtain ⟨-, hremoves, -⟩ := gcOne_removes marker w
  rcases hremoves other with hsame | ⟨heq | heq, -⟩
  · rw [← hsame] at hpresent
    exact hpresent
  · exact absurd heq.symm (hmarker.compactedPath_sealedOf.2.ne_marker hother)
  · exact absurd heq hne

/-- The loop of `run_gc` is a run. -/
theorem run_forEach_gcOne (hnow : now ≤ s.clock) {l : List Path} (hnodup : l.Nodup)
    (hl : ∀ marker ∈ l, marker ∈ rglobWal s.world ".ndjson.sealed.compacted" ∧
      s.expired now marker = true) :
    gcMachine.run s (l.map (.gc now)) =
      some { s with world := (forEach l gcOne).after s.world } := by
  induction l generalizing s with
  | nil => rfl
  | cons marker rest ih =>
    obtain ⟨hmem, hexpired⟩ := hl marker List.mem_cons_self
    obtain ⟨hnotin, hnodup⟩ := List.nodup_cons.mp hnodup
    have hstep : gcMachine.step s (.gc now marker) =
        some { s with world := (gcOne marker).after s.world } := if_pos ⟨hnow, hmem, hexpired⟩
    have hloop : (forEach (marker :: rest) gcOne).after s.world =
        (forEach rest gcOne).after ((gcOne marker).after s.world) :=
      congrArg Prod.snd (bind_ok (gcOne_eq marker s.world))
    rw [List.map_cons, Machine.run, hstep, Option.bind_some, hloop]
    refine ih hnow hnodup fun other hother => ⟨?_, (hl other (List.mem_cons_of_mem _ hother)).2⟩
    have hne : other ≠ marker := fun heq => hnotin (heq ▸ hother)
    exact mem_rglobWal_gcOne (isMarker_of_mem_rglobWal hmem).1 hne
      (hl other (List.mem_cons_of_mem _ hother)).1

theorem nodup_rglobWal (w : World C) (suffix : String) : (rglobWal w suffix).Nodup :=
  w.files.nodupKeys.filter _

/-- **A pass of `run_gc`** is a run, one step for each expired marker. -/
theorem run_runGc (s : GcState C) :
    gcMachine.run s (((rglobWal s.world ".ndjson.sealed.compacted").filter
      (s.expired s.clock)).map (.gc s.clock)) =
      some { s with world := (runGc (s.expired s.clock)).after s.world } := by
  refine run_forEach_gcOne le_rfl ((nodup_rglobWal s.world _).filter _) fun marker hmarker => ?_
  exact List.mem_filter.mp hmarker

/-- The loop of `run_gc_with_extension` is a run. -/
theorem run_gcExtLoop (hnow : now ≤ s.clock) {l : List Path} (hl : ∀ marker ∈ l, IsMarker marker) :
    gcMachine.run s (l.map (.gcExt now)) =
      some { s with world := (gcExtLoop now s.mtime l).after s.world } := by
  induction l generalizing s with
  | nil => rfl
  | cons marker rest ih =>
    have hstep : gcMachine.step s (.gcExt now marker) =
        some { s with world := (gcExtOne now s.mtime marker).after s.world } :=
      if_pos ⟨hnow, hl marker List.mem_cons_self⟩
    obtain ⟨⟨alert, halert⟩, -⟩ := gcExtOne_post now s.mtime marker s.world
    have hone : gcExtOne now s.mtime marker s.world =
        (.ok alert, (gcExtOne now s.mtime marker).after s.world) := Prod.ext halert rfl
    have hloop : (gcExtLoop now s.mtime (marker :: rest)).after s.world =
        (gcExtLoop now s.mtime rest).after ((gcExtOne now s.mtime marker).after s.world) := by
      refine wp_bind_ok (Q := fun _ w' => w' = _) hone ?_
      exact wp_seq (P := fun _ w' => w' = _) rfl (fun _ _ h => h) fun _ _ h => h
    rw [List.map_cons, Machine.run, hstep, Option.bind_some, hloop]
    exact ih hnow fun other hother => hl other (List.mem_cons_of_mem _ hother)

/-- **A pass of `run_gc_with_extension`** is a run, one step for each marker. -/
theorem run_runGcWithExtension (s : GcState C) :
    gcMachine.run s ((rglobWal s.world ".ndjson.sealed.compacted").map (.gcExt s.clock)) =
      some { s with world := (runGcWithExtension s.clock s.mtime).after s.world } :=
  run_gcExtLoop le_rfl fun _ hmarker => (isMarker_of_mem_rglobWal hmarker).1

end

/-! ## the two ways it fails -/

/-- A sealed segment. -/
def segmentA : Path := ["wal", "upbit", "transaction", "KRW-BTC", "1970-01-01",
  "segment-19700101T000000Z-N1.ndjson.sealed"]

theorem isSealed_segmentA : IsSealed segmentA := by decide

/-- An empty disk whose first `unlink` may be refused. -/
def gcStart (refused : Bool) : GcState String where
  world := ⟨∅, [], ∅, none, Stream'.const (.ok "" none), Stream'.cons refused (Stream'.const false)⟩
  clock := 0
  mtime := fun _ => 0
  compacted := []

/-- A segment is sealed and compacted, its archive fails, and `seconds` go by. -/
def archiveFails (seconds : ℚ) : List (GcAction String) :=
  [.sealSegment segmentA "", .mark segmentA "", .write (archiveFailedSentinel segmentA) "",
    .advance seconds]

/-- What is on the disk then. -/
def archiveFailed (refused : Bool) (seconds : ℚ) : GcState String :=
  { gcStart refused with
    world := { (gcStart refused).world with
      files := (((∅ : AList fun _ : Path => String).insert segmentA "").insert
        (compactedPath segmentA) "").insert (archiveFailedSentinel segmentA) "" }
    clock := 0 + seconds
    mtime := Function.update (gcStart refused).mtime (compactedPath segmentA) 0
    compacted := [segmentA] }

theorem run_archiveFails (refused : Bool) {seconds : ℚ} (h : 0 ≤ seconds) :
    gcMachine.run (gcStart refused) (archiveFails seconds) =
      some (archiveFailed refused seconds) := by
  show (if 0 ≤ seconds then some (archiveFailed refused seconds) else none).bind some = _
  rw [if_pos h]
  rfl

theorem reaches_archiveFailed (refused : Bool) {seconds : ℚ} (h : 0 ≤ seconds) :
    gcMachine.Reaches calmGc (archiveFailed refused seconds) := by
  refine Machine.reaches_of_guarded_run (.init (s := gcStart refused) ?_) ?_
    (run_archiveFails refused h)
  · intro path hpath
    cases hpath
  · intro a ha s
    simp only [archiveFails, List.mem_cons, List.not_mem_nil, or_false] at ha
    rcases ha with rfl | rfl | rfl | rfl <;> trivial

/-- After seven days the segment goes, with its marker and its sentinel. -/
theorem archive_failed_grace_seven_days : ∃ s' : GcState String,
    gcMachine.step (archiveFailed false 604800) (.gcExt 604800 (compactedPath segmentA)) =
      some s' ∧
      MarkersKept (archiveFailed false 604800) ∧ GraceKept (archiveFailed false 604800) s' ∧
      (archiveFailed false 604800).has segmentA = true ∧ s'.has segmentA = false := by
  have hstep : gcMachine.step (archiveFailed false 604800)
      (.gcExt 604800 (compactedPath segmentA)) =
      some { archiveFailed false 604800 with
        world := (gcExtOne 604800 (archiveFailed false 604800).mtime
          (compactedPath segmentA)).after (archiveFailed false 604800).world } :=
    if_pos ⟨by decide +kernel, isSealed_segmentA.marker⟩
  obtain ⟨hmarkers, hgrace⟩ :=
    archive_failed_grace (reaches_archiveFailed false (by decide : (0 : ℚ) ≤ 604800))
  have hcalm : calmGc (archiveFailed false 604800) (.gcExt 604800 (compactedPath segmentA)) :=
    fun _ _ => rfl
  exact ⟨_, hstep, hmarkers, hgrace _ _ hcalm hstep, rfl, by decide +kernel⟩

/-- `run_gc` deletes a segment with a sentinel after one day. And where
`run_gc_with_extension` is refused the removal of the segment, it removes the marker all
the same. -/
theorem run_gc_ignores_sentinel :
    (∃ s' : GcState String, gcMachine.run (gcStart false) (archiveFails 86400) =
        some (archiveFailed false 86400) ∧
      gcMachine.step (archiveFailed false 86400) (.gc 86400 (compactedPath segmentA)) = some s' ∧
      ¬ GraceKept (archiveFailed false 86400) s') ∧
    ∃ s' : GcState String, gcMachine.run (gcStart true) (archiveFails 604800) =
        some (archiveFailed true 604800) ∧
      gcMachine.step (archiveFailed true 604800) (.gcExt 604800 (compactedPath segmentA)) =
        some s' ∧ ¬ MarkersKept s' := by
  refine ⟨⟨_, run_archiveFails false (by decide +kernel), if_pos (by decide +kernel), fun h => ?_⟩,
    _, run_archiveFails true (by decide +kernel),
    if_pos ⟨by decide +kernel, isSealed_segmentA.marker⟩, fun h => ?_⟩
  · have hage := h segmentA isSealed_segmentA rfl rfl (by decide +kernel)
    exact absurd hage (by decide +kernel)
  · have hmarker := h segmentA List.mem_cons_self (by decide +kernel)
    exact absurd hmarker (by decide +kernel)

end MctraderData.Wal
