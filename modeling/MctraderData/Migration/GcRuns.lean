import MctraderData.Migration.Gc
import MctraderData.Tier.EndpointRouter

/-!
# mctrader-data — garbage collection over its whole life

When the grace gate of `gc` opens, and what one run finds that earlier runs have left.

The gate reads a count of days that `EndpointRouter.grace_remaining_days` has cut to a whole
number. The deletion log is written before and after each unlink, and a run may be killed
between any two of its steps; other programs create and remove files all the while. `History`
has beside the site every path that a run has ever unlinked.

## Results

* `grace_not_cut_short_iff` — at which times a grace of zero days means that it is over.
* `run_live`                — a run that is not killed is `gc`.
* `log_of_history`          — the rows of the log and the unlinks of a whole history.
* `dry_run_predicts_iff`    — after which histories a dry run says what the live run does.
-/

namespace MctraderData.Gc

open Lib Eff
open Nas
open Tier (IsoFormat EndpointRouter)
open GcRunner

/-! ## the grace gate -/

/-- The router is in a grace period that began at `started`. -/
structure InGrace (iso : IsoFormat) (r : EndpointRouter) (started : ℚ) : Prop where
  active : r.graceState.active = true
  dated : r.graceState.startedAtIso ≠ ""
  parsed : iso.fromisoformat r.graceState.startedAtIso = some started

/-- `started_at + grace_days` -/
def graceEnd (started : ℚ) (graceDays : Int) : ℚ := started + graceDays * 86400

/-- The evidence that is written from a reading of the days left. -/
def graceEvidence (remaining : Int) : Evidence :=
  .object [("grace_remaining_days", .int remaining)]

/-- The grace gate lets a run through. -/
def GateOpens (g : GcRunner) (grace : Evidence) : Prop :=
  ∃ remaining, g.checkGracePeriodExpired grace = .ok (true, remaining)

theorem gateOpens_graceEvidence (g : GcRunner) (remaining : Int) :
    GateOpens g (graceEvidence remaining) ↔ remaining ≤ 0 := by
  have hcheck : g.checkGracePeriodExpired (graceEvidence remaining) =
      .ok (decide (remaining ≤ 0), remaining) := rfl
  simp [GateOpens, hcheck]

/-- The days left are zero from one day before the end on. -/
theorem graceRemainingDays_eq_zero_iff {iso : IsoFormat} {r : EndpointRouter} {started : ℚ}
    (h : InGrace iso r started) (now : ℚ) :
    r.graceRemainingDays iso now = 0 ↔ graceEnd started r.graceState.graceDays < now + 86400 := by
  have hdated : ¬ (¬ r.graceState.active = true ∨ r.graceState.startedAtIso = "") := by
    simp [h.active, h.dated]
  unfold EndpointRouter.graceRemainingDays
  rw [if_neg hdated, h.parsed]
  rw [max_eq_left_iff, ← Int.lt_add_one_iff, zero_add, Int.floor_lt, Int.cast_one, graceEnd,
    sub_lt_iff_lt_add, ← sub_lt_iff_lt_add', lt_div_iff₀ (by norm_num)]
  constructor <;> intro hlt <;> linarith

/-- **The grace period is not cut short** by a reading of the days left, or by a gate that
reads it then or later, if and only if the reading is not made in the last day of the
period. -/
theorem grace_not_cut_short_iff {iso : IsoFormat} {r : EndpointRouter} {started : ℚ}
    (h : InGrace iso r started) (g : GcRunner) (now : ℚ) :
    ((r.graceRemainingDays iso now = 0 → graceEnd started r.graceState.graceDays ≤ now) ∧
      ∀ later, now ≤ later → GateOpens g (graceEvidence (r.graceRemainingDays iso now)) →
        graceEnd started r.graceState.graceDays ≤ later) ↔
      (graceEnd started r.graceState.graceDays ≤ now ∨
        now + 86400 ≤ graceEnd started r.graceState.graceDays) := by
  have hzero := graceRemainingDays_eq_zero_iff h now
  have hopens : GateOpens g (graceEvidence (r.graceRemainingDays iso now)) ↔
      r.graceRemainingDays iso now = 0 := by
    have hnonneg : 0 ≤ r.graceRemainingDays iso now := by
      unfold EndpointRouter.graceRemainingDays
      repeat' split
      all_goals simp
    rw [gateOpens_graceEvidence]
    exact ⟨fun hle => le_antisymm hle hnonneg, fun heq => heq.le⟩
  constructor
  · rintro ⟨hreading, -⟩
    by_cases hlast : graceEnd started r.graceState.graceDays < now + 86400
    · exact Or.inl (hreading (hzero.mpr hlast))
    · exact Or.inr (not_lt.mp hlast)
  · intro hcond
    have hreading : r.graceRemainingDays iso now = 0 →
        graceEnd started r.graceState.graceDays ≤ now := by
      intro heq
      exact hcond.resolve_right (not_le.mpr (hzero.mp heq))
    exact ⟨hreading, fun later hlater hgate => (hreading (hopens.mp hgate)).trans hlater⟩

/-- A format with one text, of time zero. -/
def epochIso : IsoFormat := ⟨fun _ => "1970-01-01T00:00:00+00:00", fun _ => some 0⟩

/-- A router in a grace period of seven days from time zero. -/
def inFirstWeek : EndpointRouter where
  env := "nas"
  endpointUrl := "nas"
  graceState := { active := true, startedAtIso := "1970-01-01T00:00:00+00:00" }

/-- After seven days the grace period is over, and the days left are zero. -/
theorem grace_not_cut_short_after_seven_days :
    GateOpens l2Runner (graceEvidence (inFirstWeek.graceRemainingDays epochIso 604800)) ∧
      graceEnd 0 7 ≤ 604800 := by
  have hgrace : InGrace epochIso inFirstWeek 0 := ⟨rfl, by decide, rfl⟩
  have hend : graceEnd 0 inFirstWeek.graceState.graceDays ≤ 604800 := by decide +kernel
  have hgate : GateOpens l2Runner
      (graceEvidence (inFirstWeek.graceRemainingDays epochIso 604800)) := by
    rw [gateOpens_graceEvidence]
    decide +kernel
  exact ⟨hgate, ((grace_not_cut_short_iff hgrace l2Runner 604800).mpr (Or.inl hend)).2 604800 le_rfl
    hgate⟩

/-- One second into the last day the days left are zero, and the gate opens a day early. -/
theorem grace_cut_short :
    inFirstWeek.graceState.active = true ∧ inFirstWeek.graceRemainingDays epochIso 518401 = 0 ∧
      GateOpens l2Runner (graceEvidence (inFirstWeek.graceRemainingDays epochIso 518401)) ∧
      ¬ graceEnd 0 inFirstWeek.graceState.graceDays ≤ 518401 := by
  refine ⟨rfl, by decide +kernel, ?_, by decide +kernel⟩
  rw [gateOpens_graceEvidence]
  decide +kernel

/-! ## runs that may be killed -/

variable {C : Type} [Blob C]

/-- Where a run stands with the target in hand. -/
inductive Stage where
  /-- before `_is_already_deleted` -/
  | check
  /-- the row `pending` is written -/
  | unlink
  /-- the unlink has returned or raised, and the row does not say so yet -/
  | record (status : RecoveryStatus)

/-- The targets a live run has still to do, the one in hand first. -/
structure Progress where
  targets : List Path
  stage : Stage

/-- The site, a live run on it, and every path that a run has unlinked. -/
structure History (C : Type) [Blob C] where
  site : Site C
  running : Option Progress := none
  unlinked : List Path := []

/-- The row `pending` for a target, with its size and hash. -/
def appendPending (target : Path) (s : Site C) : Site C :=
  (appendDeletionLog target
    ⟨(s.world.files.lookup target).map Blob.sha256, safeFileSize s.world target, .pending⟩).after s

/-- What is written after the unlink. -/
def unlinkStatus : Except GcExn Unit → RecoveryStatus
  | .ok _ => .confirmedDeleted
  | .error _ => .recoveryFailed

@[simp] theorem unlinkStatus_ok : unlinkStatus (.ok ()) = .confirmedDeleted := rfl

@[simp] theorem unlinkStatus_error (e : GcExn) : unlinkStatus (.error e) = .recoveryFailed := rfl

/-- One step of the deletion loop. -/
def History.turn (s : History C) (p : Progress) : History C :=
  match p.targets with
  | [] => { s with running := none }
  | target :: rest =>
    match p.stage with
    | .check =>
      if isAlreadyDeleted s.site.log target then { s with running := some ⟨rest, .check⟩ }
      else { s with
        site := appendPending target s.site
        running := some ⟨target :: rest, .unlink⟩ }
    | .unlink =>
      let r := (onWorld (Nas.unlink target)).result s.site
      { site := (onWorld (Nas.unlink target)).after s.site
        running := some ⟨target :: rest, .record (unlinkStatus r)⟩
        unlinked :=
          if unlinkStatus r = .confirmedDeleted then target :: s.unlinked else s.unlinked }
    | .record status =>
      { s with
        site := (updateDeletionLog target status).after s.site
        running := some ⟨rest, .check⟩ }

/-- What happens to a site. -/
inductive GcAction (C : Type) where
  | start (ev : EvidenceFiles) (m : Machine) (tier : String)
  | turn
  /-- The process is killed, wherever it stands. -/
  | crash
  /-- Another program creates or overwrites a file. -/
  | write (path : Path) (c : C)
  /-- Another program removes a file. -/
  | remove (path : Path)

instance (g : GcRunner) (grace : Evidence) : Decidable (GateOpens g grace) :=
  match h : g.checkGracePeriodExpired grace with
  | .ok (true, remaining) => isTrue ⟨remaining, h⟩
  | .ok (false, _) => isFalse (by simp [GateOpens, h])
  | .error _ => isFalse (by simp [GateOpens, h])

instance (g : GcRunner) (ev : EvidenceFiles) : Decidable (g.GatesOpen ev) :=
  inferInstanceAs (Decidable (_ ∧ GateOpens g ev.grace ∧ _))

/-- Live runs one after the other, with everything that may happen in between. -/
def gcMachine (g : GcRunner) : Lib.Machine (History C) (GcAction C) where
  init s := s.site.log = ∅ ∧ s.running = none ∧ s.unlinked = []
  step s action := match action with
    | .start ev m tier =>
      if s.running.isNone ∧ g.GatesOpen ev then
        some { s with running := some ⟨g.listDeletionTargets m s.site.world tier, .check⟩ }
      else none
    | .turn => s.running.map s.turn
    | .crash => some { s with running := none }
    | .write path c => some { s with
        site := { s.site with
          world := { s.site.world with files := s.site.world.files.insert path c } } }
    | .remove path => some { s with
        site := { s.site with
          world := { s.site.world with files := s.site.world.files.erase path } } }

/-! ## one turn of the loop, step by step -/

/-- The file is there before and not after. -/
def Removed (s s' : Site C) (path : Path) : Prop := path ∈ s.world.files ∧ path ∉ s'.world.files

/-- The log has the path as `confirmed_deleted`. -/
def Confirmed (log : AList fun _ : Path => LogRow C) (path : Path) : Prop :=
  (log.lookup path).map LogRow.recoveryStatus = some .confirmedDeleted

instance (log : AList fun _ : Path => LogRow C) (path : Path) : Decidable (Confirmed log path) :=
  inferInstanceAs (Decidable (_ = _))

variable {path : Path}

theorem Confirmed.isAlreadyDeleted {log : AList fun _ : Path => LogRow C} (h : Confirmed log path) :
    isAlreadyDeleted log path = true := by
  obtain ⟨row, hrow, hstatus⟩ := Option.map_eq_some_iff.mp h
  unfold GcRunner.isAlreadyDeleted
  rw [hrow]
  exact decide_eq_true (Or.inl hstatus)

section

variable {target : Path} {s : Site C}

/-- An unlink removes its file, or it changes no file and raises an `OSError`. -/
theorem onWorld_unlink_cases (target : Path) (s : Site C) :
    ((onWorld (Nas.unlink target)).after s).log = s.log ∧
      (((onWorld (Nas.unlink target)).result s = .ok () ∧ target ∈ s.world.files ∧
          ((onWorld (Nas.unlink target)).after s).world.files = s.world.files.erase target) ∨
        (∃ e : Exn, (onWorld (Nas.unlink target)).result s = .error (.storage e) ∧
          e.isOSError = true ∧
          ((onWorld (Nas.unlink target)).after s).world.files = s.world.files)) := by
  show wp (onWorld (Nas.unlink target)) (fun r s' => s'.log = s.log ∧
    ((r = .ok () ∧ target ∈ s.world.files ∧ s'.world.files = s.world.files.erase target) ∨
      ∃ e : Exn, r = .error (.storage e) ∧ e.isOSError = true ∧ s'.world.files = s.world.files)) s
  rw [onWorld, wp_within]
  refine wp_bind_ok rfl (wp_bind_ok rfl ?_)
  split
  · exact ⟨rfl, Or.inr ⟨_, rfl, rfl, rfl⟩⟩
  · cases hc : s.world.files.lookup target with
    | none => exact ⟨rfl, Or.inr ⟨_, rfl, rfl, rfl⟩⟩
    | some c =>
      exact ⟨rfl, Or.inl ⟨rfl, AList.lookup_isSome.mp (Option.isSome_of_eq_some hc), rfl⟩⟩

/-- The site after the unlink and the last change of the log. -/
def unlinkAndRecord (target : Path) (s : Site C) : Site C :=
  (updateDeletionLog target (unlinkStatus ((onWorld (Nas.unlink target)).result s))).after
    ((onWorld (Nas.unlink target)).after s)

theorem deleteTarget_marked (hdel : isAlreadyDeleted s.log target = true) :
    (deleteTarget target).after s = s := by
  show wp (deleteTarget target) (fun _ s' => s' = s) s
  refine wp_bind_ok rfl ?_
  rw [if_pos hdel]
  exact rfl

theorem deleteTarget_unmarked (hdel : isAlreadyDeleted s.log target = false) :
    (deleteTarget target).after s = unlinkAndRecord target (appendPending target s) := by
  show wp (deleteTarget target)
    (fun _ s' => s' = unlinkAndRecord target (appendPending target s)) s
  refine wp_bind_ok rfl ?_
  rw [if_neg (Bool.eq_false_iff.mp hdel)]
  refine wp_bind_ok rfl ?_
  rw [wp_bind, wp_outcome]
  -- the outcome of the unlink decides what is recorded
  have hunlink : wp (onWorld (Nas.unlink target))
      (fun r s₂ => r = (onWorld (Nas.unlink target)).result (appendPending target s) ∧
        s₂ = (onWorld (Nas.unlink target)).after (appendPending target s))
      (appendPending target s) := ⟨rfl, rfl⟩
  refine wp_mono hunlink ?_
  rintro r s₂ ⟨hr, rfl⟩
  unfold unlinkAndRecord
  rcases (onWorld_unlink_cases target (appendPending target s)).2 with
    ⟨hok, -⟩ | ⟨e, hraised, hos, -⟩
  · rw [hr, hok]
    exact wp_bind_ok rfl rfl
  · rw [hr, hraised]
    show wp (if e.isOSError = true then _ else _) _ _
    rw [if_pos hos]
    exact wp_bind_ok rfl rfl

theorem world_updateDeletionLog (target : Path) (status : RecoveryStatus) (s : Site C) :
    ((updateDeletionLog target status).after s).world = s.world :=
  (updateDeletionLog_post status s).2.2

/-- Only the status of one row changes. -/
theorem lookup_updateDeletionLog (target path : Path) (status : RecoveryStatus) (s : Site C) :
    ((updateDeletionLog target status).after s).log.lookup path =
      if path = target then
        (s.log.lookup target).map fun row => { row with recoveryStatus := status }
      else s.log.lookup path := by
  refine (?_ : wp (updateDeletionLog target status) (fun _ s' => s'.log.lookup path = _) s)
  rw [updateDeletionLog, wp_modify]
  by_cases heq : path = target
  · rw [heq, if_pos rfl]
    cases hrow : s.log.lookup target with
    | none => exact hrow
    | some row => exact AList.lookup_insert _
  · rw [if_neg heq]
    cases s.log.lookup target with
    | none => rfl
    | some row => exact AList.lookup_insert_ne heq

/-- Files are removed one at a time, by the unlink of a target that the log does not have. -/
theorem unlinkAndRecord_files (target : Path) (s : Site C) :
    (unlinkAndRecord target (appendPending target s)).world.files =
      if unlinkStatus ((onWorld (Nas.unlink target)).result (appendPending target s)) =
          .confirmedDeleted then s.world.files.erase target
      else s.world.files := by
  unfold unlinkAndRecord
  rw [world_updateDeletionLog]
  rcases (onWorld_unlink_cases target (appendPending target s)).2 with
    ⟨hok, -, hfiles⟩ | ⟨e, hraised, -, hfiles⟩
  · rw [hok, hfiles]
    rfl
  · rw [hraised, hfiles]
    rfl

/-- Which files one turn of the loop removes. -/
theorem removed_unlinkAndRecord (path : Path) :
    Removed s (unlinkAndRecord target (appendPending target s)) path ↔
      unlinkStatus ((onWorld (Nas.unlink target)).result (appendPending target s)) =
        .confirmedDeleted ∧ path = target := by
  have hfiles := unlinkAndRecord_files target s
  unfold Removed
  rw [hfiles]
  rcases (onWorld_unlink_cases target (appendPending target s)).2 with
    ⟨hok, hmem, -⟩ | ⟨e, hraised, -⟩
  · rw [hok, unlinkStatus_ok, if_pos rfl, AList.mem_erase]
    constructor
    · rintro ⟨hin, hout⟩
      exact ⟨rfl, by_contra fun hne => hout ⟨hne, hin⟩⟩
    · rintro ⟨-, rfl⟩
      exact ⟨hmem, fun h => h.1 rfl⟩
  · simp [hraised]

theorem deleteTarget_shrinks (target : Path) (s : Site C)
    (hpath : path ∈ ((deleteTarget target).after s).world.files) : path ∈ s.world.files := by
  cases hdel : isAlreadyDeleted s.log target with
  | true =>
    rw [deleteTarget_marked hdel] at hpath
    exact hpath
  | false =>
    rw [deleteTarget_unmarked hdel, unlinkAndRecord_files] at hpath
    split at hpath
    · exact (AList.mem_erase.mp hpath).2
    · exact hpath

end

theorem after_deleteTargets_cons (target : Path) (rest : List Path) (s : Site C) :
    (deleteTargets (target :: rest)).after s =
      (deleteTargets rest).after ((deleteTarget target).after s) := by
  show wp (deleteTargets (target :: rest))
    (fun _ s' => s' = (deleteTargets rest).after ((deleteTarget target).after s)) s
  obtain ⟨⟨n, hn⟩, -⟩ := deleteTarget_post target s
  refine wp_bind_ok (Prod.ext hn rfl) ?_
  obtain ⟨⟨n', hn'⟩, -⟩ := deleteTargets_elsewhere rest ((deleteTarget target).after s)
  exact wp_bind_ok (Prod.ext hn' rfl) rfl

theorem deleteTargets_shrinks (targets : List Path) {s : Site C}
    (hpath : path ∈ ((deleteTargets targets).after s).world.files) : path ∈ s.world.files := by
  induction targets generalizing s with
  | nil => exact hpath
  | cons target rest ih =>
    rw [after_deleteTargets_cons] at hpath
    exact deleteTarget_shrinks target s (ih hpath)

/-! ## a run that is not killed -/

section

variable {g : GcRunner}

/-- Some turns of the run that is going on. -/
def Turns (g : GcRunner) : History C → History C → Prop :=
  Relation.ReflTransGen fun s s' => (gcMachine g).step s .turn = some s'

/-- The turns of one target are `deleteTarget`. -/
theorem turns_deleteTarget (g : GcRunner) (target : Path) (rest : List Path) (s : Site C)
    (unlinked : List Path) :
    ∃ unlinked', Turns g ⟨s, some ⟨target :: rest, .check⟩, unlinked⟩
        ⟨(deleteTarget target).after s, some ⟨rest, .check⟩, unlinked'⟩ ∧
      ∀ path, path ∈ unlinked' ↔
        path ∈ unlinked ∨ Removed s ((deleteTarget target).after s) path := by
  cases hdel : isAlreadyDeleted s.log target with
  | true =>
    rw [deleteTarget_marked hdel]
    refine ⟨unlinked, .single ?_, fun path => ?_⟩
    · show some (if isAlreadyDeleted s.log target = true then _ else _) = _
      rw [if_pos hdel]
    · exact ⟨Or.inl, fun h => h.elim id fun hgone => absurd hgone.1 hgone.2⟩
  | false =>
    rw [deleteTarget_unmarked hdel]
    have hcheck : (gcMachine g).step ⟨s, some ⟨target :: rest, .check⟩, unlinked⟩ .turn =
        some ⟨appendPending target s, some ⟨target :: rest, .unlink⟩, unlinked⟩ := by
      show some (if isAlreadyDeleted s.log target = true then _ else _) = _
      rw [if_neg (Bool.eq_false_iff.mp hdel)]
    have hturns : Turns g ⟨s, some ⟨target :: rest, .check⟩, unlinked⟩
        ⟨unlinkAndRecord target (appendPending target s), some ⟨rest, .check⟩, _⟩ :=
      .head hcheck (.head rfl (.single rfl))
    refine ⟨_, hturns, fun path => ?_⟩
    rw [removed_unlinkAndRecord]
    simp only [History.turn]
    split
    · rename_i hok
      rw [List.mem_cons, or_comm, and_iff_right hok]
    · rename_i hraised
      exact (or_iff_left fun h => hraised h.1).symm

/-- The turns of a run are `deleteTargets`. -/
theorem turns_deleteTargets (g : GcRunner) (targets : List Path) (s : Site C)
    (unlinked : List Path) :
    ∃ unlinked', Turns g ⟨s, some ⟨targets, .check⟩, unlinked⟩
        ⟨(deleteTargets targets).after s, none, unlinked'⟩ ∧
      ∀ path, path ∈ unlinked' ↔
        path ∈ unlinked ∨ Removed s ((deleteTargets targets).after s) path := by
  induction targets generalizing s unlinked with
  | nil =>
    refine ⟨unlinked, .single rfl, fun path => ?_⟩
    exact ⟨Or.inl, fun h => h.elim id fun hgone => absurd hgone.1 hgone.2⟩
  | cons target rest ih =>
    obtain ⟨unlinked₁, hfirst, hmem₁⟩ := turns_deleteTarget g target rest s unlinked
    obtain ⟨unlinked₂, hrest, hmem₂⟩ := ih ((deleteTarget target).after s) unlinked₁
    rw [after_deleteTargets_cons]
    refine ⟨unlinked₂, hfirst.trans hrest, fun path => ?_⟩
    rw [hmem₂, hmem₁, or_assoc]
    refine or_congr_right ⟨?_, fun hgone => ?_⟩
    · rintro (⟨hin, hout⟩ | ⟨hin, hout⟩)
      · exact ⟨hin, fun h => hout (deleteTargets_shrinks rest h)⟩
      · exact ⟨deleteTarget_shrinks target s hin, hout⟩
    · by_cases hmid : path ∈ ((deleteTarget target).after s).world.files
      · exact Or.inr ⟨hmid, hgone.2⟩
      · exact Or.inl ⟨hgone.1, hmid⟩

theorem after_collect_live (m : Machine) (tier : String) (s : Site C) :
    (g.collect m tier false).after s =
      (deleteTargets (g.listDeletionTargets m s.world tier)).after s := by
  show wp (g.collect m tier false)
    (fun _ s' => s' = (deleteTargets (g.listDeletionTargets m s.world tier)).after s) s
  refine wp_bind_ok rfl ?_
  obtain ⟨⟨n, hn⟩, -⟩ := deleteTargets_elsewhere (g.listDeletionTargets m s.world tier) s
  exact wp_bind_ok (Prod.ext hn rfl) rfl

/-- **A live run that is not killed** ends, and it has done to the site what `gc` does. -/
theorem run_live {s : History C} (hidle : s.running = none) {ev : EvidenceFiles}
    (hopen : g.GatesOpen ev) (m : Machine) (tier : String) :
    ∃ started finished : History C, (gcMachine g).step s (.start ev m tier) = some started ∧
      Turns g started finished ∧ finished.running = none ∧
      finished.site = (g.gc ev m tier false).after s.site ∧
      ∀ path, path ∈ finished.unlinked ↔
        path ∈ s.unlinked ∨ Removed s.site finished.site path := by
  obtain ⟨unlinked', hturns, hmem⟩ := turns_deleteTargets g
    (g.listDeletionTargets m s.site.world tier) s.site s.unlinked
  refine ⟨_, _, ?_, hturns, rfl, ?_, hmem⟩
  · show (if s.running.isNone = true ∧ g.GatesOpen ev then _ else _) = _
    rw [if_pos ⟨by rw [hidle]; rfl, hopen⟩]
  · rw [gc_open hopen, after_collect_live]

/-- The segment that no bucket holds is unlinked. -/
theorem run_live_fresh_segment :
    ∃ started finished : History String, Turns l2Runner started finished ∧
      finished.running = none ∧ ["L2", "a.parquet"] ∈ finished.unlinked := by
  have hopen : l2Runner.GatesOpen openEvidence := by decide +kernel
  obtain ⟨started, finished, -, hturns, hdone, hsite, hunlinked⟩ :=
    run_live (s := { site := freshSegment }) rfl hopen idleMachine "L2"
  refine ⟨started, finished, hturns, hdone, (hunlinked _).mpr (Or.inr ?_)⟩
  rw [hsite]
  exact ⟨by decide +kernel, by decide +kernel⟩

end

/-! ## what a log says of the past -/

/-- A row that makes a run skip its path is confirmed, and a run has unlinked the path. A run
that is about to confirm a target has unlinked it. -/
structure Witnessed (s : History C) : Prop where
  marked : ∀ path, isAlreadyDeleted s.site.log path = true →
    Confirmed s.site.log path ∧ path ∈ s.unlinked
  recording : ∀ target rest status, s.running = some ⟨target :: rest, .record status⟩ →
    status ≠ .expired ∧ (status = .confirmedDeleted → target ∈ s.unlinked)

section

variable {g : GcRunner} {s s' : History C}

/-- Without a run that records, the log alone counts. -/
theorem Witnessed.of_log (h : Witnessed s) (hlog : s'.site.log = s.site.log)
    (hunlinked : s'.unlinked = s.unlinked)
    (hstage : ∀ target rest status, s'.running = some ⟨target :: rest, .record status⟩ →
      s.running = some ⟨target :: rest, .record status⟩) : Witnessed s' := by
  refine ⟨hlog ▸ hunlinked ▸ h.marked, fun target rest status hrunning => ?_⟩
  exact hunlinked ▸ h.recording target rest status (hstage target rest status hrunning)

theorem isAlreadyDeleted_appendPending {target : Path} {s : Site C}
    (h : isAlreadyDeleted (appendPending target s).log path = true) :
    path ≠ target ∧ (appendPending target s).log.lookup path = s.log.lookup path := by
  have hne : path ≠ target := by
    rintro rfl
    unfold isAlreadyDeleted at h
    rw [show (appendPending path s).log.lookup path = some _ from AList.lookup_insert _] at h
    exact absurd (of_decide_eq_true h) (by simp)
  exact ⟨hne, AList.lookup_insert_ne hne⟩

theorem Witnessed.turn (h : Witnessed s) {p : Progress} (hp : s.running = some p) :
    Witnessed (s.turn p) := by
  obtain ⟨targets, stage⟩ := p
  cases targets with
  | nil => exact h.of_log rfl rfl fun _ _ _ heq => by cases heq
  | cons target rest =>
    cases stage with
    | check =>
      by_cases hdel : isAlreadyDeleted s.site.log target = true
      · simp only [History.turn, if_pos hdel]
        exact h.of_log rfl rfl fun _ _ _ heq => by cases heq
      · simp only [History.turn, if_neg hdel]
        refine ⟨fun path hpath => ?_, fun _ _ _ heq => by cases heq⟩
        obtain ⟨hne, hlookup⟩ := isAlreadyDeleted_appendPending hpath
        unfold Confirmed isAlreadyDeleted at *
        rw [hlookup] at hpath ⊢
        exact h.marked path hpath
    | unlink =>
      refine ⟨fun path hpath => ?_, ?_⟩
      · have hlog := (onWorld_unlink_cases target s.site).1
        simp only [History.turn] at hpath ⊢
        rw [hlog] at hpath ⊢
        obtain ⟨hconfirmed, hmem⟩ := h.marked path hpath
        refine ⟨hconfirmed, ?_⟩
        split <;> simp [hmem]
      · intro target' rest' status heq
        obtain ⟨⟨rfl, rfl⟩, rfl⟩ := heq
        refine ⟨?_, fun hok => ?_⟩
        · rcases (onWorld_unlink_cases target s.site).2 with ⟨hok, -⟩ | ⟨e, hraised, -⟩ <;> simp [*]
        · simp only [History.turn, if_pos hok]
          exact List.mem_cons_self
    | record status =>
      refine ⟨fun path hpath => ?_, fun _ _ _ heq => by cases heq⟩
      obtain ⟨hstatus, hconfirms⟩ := h.recording target rest status hp
      simp only [History.turn] at hpath ⊢
      unfold Confirmed isAlreadyDeleted at *
      rw [lookup_updateDeletionLog] at hpath ⊢
      by_cases heq : path = target
      · rw [if_pos heq] at hpath ⊢
        cases hrow : s.site.log.lookup target with
        | none => simp [hrow] at hpath
        | some row =>
          rw [hrow] at hpath
          have hconfirmed : status = .confirmedDeleted :=
            (of_decide_eq_true hpath).resolve_right hstatus
          exact ⟨congrArg some hconfirmed, by rw [heq]; exact hconfirms hconfirmed⟩
      · rw [if_neg heq] at hpath ⊢
        exact h.marked path hpath

theorem Witnessed.step (h : Witnessed s) {action : GcAction C}
    (hstep : (gcMachine g).step s action = some s') : Witnessed s' := by
  cases action with
  | start ev m tier =>
    simp only [gcMachine] at hstep
    split at hstep
    · cases hstep
      exact h.of_log rfl rfl fun _ _ _ heq => by simp at heq
    · cases hstep
  | turn =>
    obtain ⟨p, hp, rfl⟩ := Option.map_eq_some_iff.mp hstep
    exact h.turn hp
  | crash =>
    cases hstep
    exact h.of_log rfl rfl fun _ _ _ heq => by cases heq
  | write | remove =>
    cases hstep
    exact h.of_log rfl rfl fun _ _ _ heq => heq

theorem witnessed_of_reaches (h : (gcMachine g).Reaches Lib.Machine.anyStep s) : Witnessed s := by
  refine h.invariant ?_ fun _ _ _ hw _ hstep => hw.step hstep
  rintro s₀ ⟨hlog, hrunning, -⟩
  exact ⟨by simp [hlog, isAlreadyDeleted], by simp [hrunning]⟩

/-- Every path that a run has unlinked has a row, and so has the target in hand from its row
`pending` on. -/
structure Logged (s : History C) : Prop where
  unlinked : ∀ path ∈ s.unlinked, path ∈ s.site.log
  inHand : ∀ target rest stage, s.running = some ⟨target :: rest, stage⟩ →
    stage = .check ∨ target ∈ s.site.log

/-- Between two targets only the unlinked paths count. -/
theorem logged_of_check (hunlinked : ∀ path ∈ s.unlinked, path ∈ s.site.log)
    (hstage : ∀ p, s.running = some p → p.stage = .check) : Logged s :=
  ⟨hunlinked, fun _ _ _ heq => Or.inl (hstage _ heq)⟩

theorem mem_updateDeletionLog (target : Path) (status : RecoveryStatus) (s : Site C) :
    path ∈ ((updateDeletionLog target status).after s).log ↔ path ∈ s.log := by
  rw [← AList.lookup_isSome, lookup_updateDeletionLog, ← AList.lookup_isSome]
  by_cases heq : path = target
  · subst heq
    simp
  · rw [if_neg heq]

theorem Logged.turn (h : Logged s) {p : Progress} (hp : s.running = some p) :
    Logged (s.turn p) := by
  obtain ⟨targets, stage⟩ := p
  cases targets with
  | nil => exact logged_of_check h.unlinked (by simp [History.turn])
  | cons target rest =>
    cases stage with
    | check =>
      by_cases hdel : isAlreadyDeleted s.site.log target = true
      · simp only [History.turn, if_pos hdel]
        exact logged_of_check h.unlinked (by simp)
      · -- the row is written before the file is touched
        simp only [History.turn, if_neg hdel]
        refine ⟨fun path hpath => ?_, fun _ _ _ heq => ?_⟩
        · exact (AList.mem_insert _).mpr (Or.inr (h.unlinked path hpath))
        · cases heq
          exact Or.inr ((AList.mem_insert _).mpr (Or.inl rfl))
    | unlink =>
      have htarget := (h.inHand target rest .unlink hp).resolve_left (by simp)
      have hlog := (onWorld_unlink_cases target s.site).1
      refine ⟨fun path hpath => ?_, fun _ _ _ heq => ?_⟩
      · simp only [History.turn] at hpath ⊢
        rw [hlog]
        split at hpath
        · rcases List.mem_cons.mp hpath with rfl | hpath
          · exact htarget
          · exact h.unlinked path hpath
        · exact h.unlinked path hpath
      · cases heq
        exact Or.inr (hlog.symm ▸ htarget)
    | record status =>
      refine logged_of_check (fun path hpath => ?_) (by simp [History.turn])
      exact (mem_updateDeletionLog target status s.site).mpr (h.unlinked path hpath)

theorem Logged.step (h : Logged s) {action : GcAction C}
    (hstep : (gcMachine g).step s action = some s') : Logged s' := by
  cases action with
  | start ev m tier =>
    simp only [gcMachine] at hstep
    split at hstep
    · cases hstep
      exact logged_of_check h.unlinked (by simp)
    · cases hstep
  | turn =>
    obtain ⟨p, hp, rfl⟩ := Option.map_eq_some_iff.mp hstep
    exact h.turn hp
  | crash =>
    cases hstep
    exact logged_of_check h.unlinked (by simp)
  | write | remove =>
    cases hstep
    exact ⟨h.unlinked, h.inHand⟩

end

/-! ## dry runs -/

section

variable {s s' : Site C} {targets : List Path}

/-- What a run does to its targets where the system refuses nothing. -/
structure Swept (targets : List Path) (s s' : Site C) : Prop where
  kept : ∀ path, (path ∈ targets → isAlreadyDeleted s.log path = true) →
    s'.world.files.lookup path = s.world.files.lookup path ∧
      s'.log.lookup path = s.log.lookup path
  gone : ∀ path ∈ targets, isAlreadyDeleted s.log path = false →
    path ∉ s'.world.files ∧ Confirmed s'.log path

/-- A file that is there and that the system lets go is confirmed. -/
theorem deleteTarget_confirms {target : Path} (hdel : isAlreadyDeleted s.log target = false)
    (hfile : target ∈ s.world.files)
    (hgone : target ∉ ((deleteTarget target).after s).world.files) :
    Confirmed ((deleteTarget target).after s).log target := by
  have hremoved : Removed s ((deleteTarget target).after s) target := ⟨hfile, hgone⟩
  rw [deleteTarget_unmarked hdel] at hremoved ⊢
  have hok := ((removed_unlinkAndRecord target).mp hremoved).1
  unfold unlinkAndRecord Confirmed
  rw [lookup_updateDeletionLog, if_pos rfl, (onWorld_unlink_cases target _).1, hok,
    show (appendPending target s).log.lookup target = some _ from AList.lookup_insert _]
  rfl

theorem deleteTargets_swept (hnodup : targets.Nodup)
    (hfiles : ∀ path ∈ targets, path ∈ s.world.files)
    (hwilling : s.world.unlinkFaults = Stream'.const false) :
    Swept targets s ((deleteTargets targets).after s) := by
  induction targets generalizing s with
  | nil => exact ⟨fun _ _ => ⟨rfl, rfl⟩, fun _ h => absurd h List.not_mem_nil⟩
  | cons first rest ih =>
    obtain ⟨hfirst, hrest⟩ := List.nodup_cons.mp hnodup
    obtain ⟨-, hturn⟩ := deleteTarget_post first s
    rw [after_deleteTargets_cons]
    change Turn first s ((deleteTarget first).after s) at hturn
    set s₁ := (deleteTarget first).after s with hs₁
    have hne : ∀ path ∈ rest, path ≠ first := fun path hpath heq => hfirst (heq ▸ hpath)
    have hfiles₁ : ∀ path ∈ rest, path ∈ s₁.world.files := by
      intro path hpath
      rw [← AList.lookup_isSome, hturn.elsewhere.files path (hne path hpath), AList.lookup_isSome]
      exact hfiles path (List.mem_cons_of_mem _ hpath)
    have hswept := ih hrest hfiles₁ (hturn.willing hwilling)
    have hmarked : ∀ path, path ≠ first →
        isAlreadyDeleted s₁.log path = isAlreadyDeleted s.log path :=
      fun path hpath => hturn.elsewhere.isAlreadyDeleted hpath
    refine ⟨fun path hpath => ?_, fun path hpath hdel => ?_⟩
    · by_cases heq : path = first
      · -- the turn of the path itself is skipped, and no later turn is its own
        have hskip : s₁ = s := hturn.skipped (heq ▸ hpath (heq ▸ List.mem_cons_self))
        rw [← hskip]
        exact hswept.kept path fun hin => absurd (heq ▸ hin) hfirst
      · obtain ⟨hf, hl⟩ := hswept.kept path fun hin =>
          (hmarked path heq).trans (hpath (List.mem_cons_of_mem _ hin))
        exact ⟨hf.trans (hturn.elsewhere.files path heq), hl.trans (hturn.elsewhere.log path heq)⟩
    · by_cases heq : path = first
      · subst heq
        have hgone : path ∉ s₁.world.files := hturn.gone hdel hwilling
        have hconfirmed := deleteTarget_confirms hdel (hfiles path List.mem_cons_self) hgone
        obtain ⟨hf, hl⟩ := hswept.kept path fun hin => absurd hin hfirst
        refine ⟨?_, ?_⟩
        · rwa [← AList.lookup_eq_none, hf, AList.lookup_eq_none]
        · rwa [Confirmed, hl]
      · exact hswept.gone path ((List.mem_cons.mp hpath).resolve_left heq)
          ((hmarked path heq).trans hdel)

end

/-- **A dry run says what the live run does**, and after the live run the log confirms every
path that any run has unlinked, if and only if of the paths unlinked so far exactly those are
targets again that the log does not confirm. -/
theorem dry_run_predicts_iff {g : GcRunner} {s : History C}
    (h : (gcMachine g).Reaches Lib.Machine.anyStep s) {ev : EvidenceFiles}
    (hopen : g.GatesOpen ev) (m : Machine) (tier : String)
    (hwilling : s.site.world.unlinkFaults = Stream'.const false) :
    (∃ report, (g.gc ev m tier true).result s.site = .ok report ∧
      (∀ path, Removed s.site ((g.gc ev m tier false).after s.site) path ↔
        path ∈ report.deletionTargets) ∧
      ∀ path, path ∈ s.unlinked ∨ Removed s.site ((g.gc ev m tier false).after s.site) path →
        Confirmed ((g.gc ev m tier false).after s.site).log path) ↔
      ∀ path ∈ s.unlinked, path ∈ g.listDeletionTargets m s.site.world tier ↔
        ¬ Confirmed s.site.log path := by
  have hwitnessed := witnessed_of_reaches h
  rw [gc_open hopen, gc_open hopen, after_collect_live]
  set targets := g.listDeletionTargets m s.site.world tier with htargets
  set s' := (deleteTargets targets).after s.site
  have hfiles : ∀ path ∈ targets, path ∈ s.site.world.files :=
    fun path hpath => (mem_listDeletionTargets.mp hpath).1
  have hswept : Swept targets s.site s' :=
    deleteTargets_swept listDeletionTargets_nodup hfiles hwilling
  have hkeeps : ∀ path, (path ∈ targets → isAlreadyDeleted s.site.log path = true) →
      ¬ Removed s.site s' path ∧ (Confirmed s'.log path ↔ Confirmed s.site.log path) := by
    intro path hpath
    obtain ⟨hf, hl⟩ := hswept.kept path hpath
    refine ⟨fun hremoved => hremoved.2 ?_, ?_⟩
    · rw [← AList.lookup_isSome, hf, AList.lookup_isSome]
      exact hremoved.1
    · unfold Confirmed
      rw [hl]
  constructor
  · rintro ⟨report, hreport, hpredicts, hconfirms⟩ path hunlinked
    cases hreport
    constructor
    · intro htarget hconfirmed
      exact (hkeeps path fun _ => hconfirmed.isAlreadyDeleted).1 ((hpredicts path).mpr htarget)
    · intro hnot
      by_contra htarget
      have hsame := (hkeeps path fun hin => absurd hin htarget).2
      exact hnot (hsame.mp (hconfirms path (Or.inl hunlinked)))
  · intro hcond
    -- a target that the log marks has been unlinked and confirmed
    have hunmarked : ∀ path ∈ targets, isAlreadyDeleted s.site.log path = false := by
      intro path hpath
      rw [← Bool.not_eq_true]
      intro hmarked
      obtain ⟨hconfirmed, hunlinked⟩ := hwitnessed.marked path hmarked
      exact (hcond path hunlinked).mp hpath hconfirmed
    have hgone : ∀ path ∈ targets, Removed s.site s' path ∧ Confirmed s'.log path := by
      intro path hpath
      obtain ⟨hout, hconfirmed⟩ := hswept.gone path hpath (hunmarked path hpath)
      exact ⟨⟨hfiles path hpath, hout⟩, hconfirmed⟩
    have hremoved : ∀ path, Removed s.site s' path ↔ path ∈ targets := by
      intro path
      refine ⟨fun hremoved => ?_, fun hpath => (hgone path hpath).1⟩
      by_contra hpath
      exact (hkeeps path fun hin => absurd hin hpath).1 hremoved
    refine ⟨_, rfl, hremoved, ?_⟩
    rintro path (hunlinked | hremoved')
    · by_cases hpath : path ∈ targets
      · exact (hgone path hpath).2
      · refine (hkeeps path fun hin => absurd hin hpath).2.mpr ?_
        by_contra hnot
        exact hpath ((hcond path hunlinked).mpr hnot)
    · exact (hgone path ((hremoved path).mp hremoved')).2

/-- The fresh segment, before any run. -/
def freshHistory : History String := { site := freshSegment }

def startLive : GcAction String := .start openEvidence idleMachine "L2"

def rewriteSegment : GcAction String := .write ["L2", "a.parquet"] "new rows"

/-- A run is killed after its unlink, and the file is written again: the next run deletes what
its dry run says, and confirms it. -/
theorem dry_run_predicts_after_crash :
    ∃ s, (gcMachine l2Runner).run freshHistory [startLive, .turn, .turn, .crash, rewriteSegment] =
        some s ∧ s.unlinked = [["L2", "a.parquet"]] ∧
      Confirmed ((l2Runner.gc openEvidence idleMachine "L2" false).after s.site).log
        ["L2", "a.parquet"] := by
  refine ⟨_, rfl, by decide +kernel, ?_⟩
  have hreach := Lib.Machine.reaches_of_run (M := gcMachine l2Runner) (s := freshHistory)
    (l := [startLive, .turn, .turn, .crash, rewriteSegment]) (.init ⟨rfl, rfl, rfl⟩) rfl
  have hopen : l2Runner.GatesOpen openEvidence := by decide +kernel
  obtain ⟨report, -, -, hconfirms⟩ := (dry_run_predicts_iff hreach hopen idleMachine "L2" rfl).mpr
    (by decide +kernel)
  exact hconfirms _ (Or.inl (by decide +kernel))

/-- A file that is written again after its deletion was confirmed is listed by the dry run, and
the live run leaves it. A file whose run was killed after the unlink stays `pending`. -/
theorem dry_run_misled :
    (∃ s, (gcMachine l2Runner).run freshHistory
        [startLive, .turn, .turn, .turn, .turn, rewriteSegment] = some s ∧
      ((l2Runner.gc openEvidence idleMachine "L2" true).result s.site).toOption.map
        GcResult.deletionTargets = some [["L2", "a.parquet"]] ∧
      ["L2", "a.parquet"] ∈
        ((l2Runner.gc openEvidence idleMachine "L2" false).after s.site).world.files) ∧
    ∃ s, (gcMachine l2Runner).run freshHistory [startLive, .turn, .turn, .crash] = some s ∧
      ["L2", "a.parquet"] ∈ s.unlinked ∧
      ¬ Confirmed ((l2Runner.gc openEvidence idleMachine "L2" false).after s.site).log
        ["L2", "a.parquet"] :=
  ⟨⟨_, rfl, by decide +kernel, by decide +kernel⟩, _, rfl, by decide +kernel, by decide +kernel⟩

/-- **The log and the disk.** In every history of live runs, kills and other programs, a path
that a run has unlinked has a row, and a path that the log makes runs skip was unlinked by
a run. -/
theorem log_of_history {g : GcRunner} {s : History C}
    (h : (gcMachine g).Reaches Lib.Machine.anyStep s) (path : Path) :
    (path ∈ s.unlinked → path ∈ s.site.log) ∧
      (isAlreadyDeleted s.site.log path = true → path ∈ s.unlinked) := by
  have hlogged : Logged s := by
    refine h.invariant ?_ fun _ _ _ hlogged _ hstep => hlogged.step hstep
    rintro s₀ ⟨-, hrunning, hunlinked⟩
    exact ⟨by simp [hunlinked], by simp [hrunning]⟩
  exact ⟨hlogged.unlinked path, fun hmarked => ((witnessed_of_reaches h).marked path hmarked).2⟩

/-- A run is killed after its unlink: the log has the path, and does not mark it yet. -/
theorem log_of_killed_run :
    ∃ s, (gcMachine l2Runner).run freshHistory [startLive, .turn, .turn, .crash] = some s ∧
      isAlreadyDeleted s.site.log ["L2", "a.parquet"] = false ∧
      ["L2", "a.parquet"] ∈ s.site.log := by
  refine ⟨_, rfl, by decide +kernel, ?_⟩
  have hreach := Lib.Machine.reaches_of_run (M := gcMachine l2Runner) (s := freshHistory)
    (l := [startLive, .turn, .turn, .crash]) (.init ⟨rfl, rfl, rfl⟩) rfl
  exact (log_of_history hreach ["L2", "a.parquet"]).1 (by decide +kernel)

end MctraderData.Gc
