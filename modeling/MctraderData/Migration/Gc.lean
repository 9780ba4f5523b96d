import Mathlib.Data.Rat.Defs
import MctraderData.Migration.Harness

/-!
# mctrader-data — garbage collection of local segments

Model of `nas_migration/gc_runner.py`. `gc` opens on three evidence files that other
programs write (the cutover verdict, the days of grace left, the days in a row the
invariants held), then deletes every parquet file below its root that the deletion log
does not already record as gone.

The evidence is what `json.loads` makes of the files, with everything `dict.get`, `int` and
`==` can tell apart: a gate that meets a value of the wrong type raises, and `gc` with it.
The deletion log is a map from paths to rows. The verifier and the harness that the
constructor takes are stored and never called.

Time stamps, durations and log lines are left out.

## Results

* `gc_safe_iff` — when a run can only delete what is replicated.
-/

namespace MctraderData.Gc

open Lib Eff
open Nas
open Compactor (hasSuffix)
open Harness (basename)

variable {C : Type} [Blob C]

/-! ## evidence -/

/-- A value of a JSON object; lists and objects are told apart by nothing here. -/
inductive JsonValue where
  | null
  | bool (b : Bool)
  | int (n : Int)
  /-- A finite float, by what `int` makes of it. -/
  | float (truncated : Int)
  | nan
  | infinity
  | str (s : String)
  | nested
deriving DecidableEq, Repr

/-- What reading an evidence file gives. -/
inductive Evidence where
  | missing
  | osError
  | undecodable
  | invalidJson
  | notAnObject
  | object (fields : List (String × JsonValue))
deriving DecidableEq, Repr

/-- `data.get(field, default)` -/
def getField (fields : List (String × JsonValue)) (field : String) (default : JsonValue) :
    JsonValue :=
  (fields.lookup field).getD default

/-- The exceptions that leave `gc`. -/
inductive GcExn where
  | attributeError
  | typeError
  | unicodeDecodeError
  | overflowError
  | storage (e : Exn)
deriving DecidableEq, Repr

/-- `invariant_fail_reason` -/
inductive Reason where
  | none
  | cutoverVerifyEvidenceFileMissing
  | cutoverVerifyStatus (status : JsonValue)
  | cutoverVerifyParseError
  | invariantEvidenceFileMissing
  | invariantPassDays (passDays required : Int)
  | invariantEvidenceParseError
deriving DecidableEq, Repr

/-! ## the runner -/

/-- `recovery_status` -/
inductive RecoveryStatus where
  | pending
  | confirmedDeleted
  | recoveryFailed
  | expired
deriving DecidableEq, Repr

/-- A row of `gc_deletion_log`; the sha256 is `none` where the file could not be read. -/
structure LogRow (C : Type) [Blob C] where
  sha256 : Option (Blob.Digest C)
  sizeBytes : Nat
  recoveryStatus : RecoveryStatus

/-- The world and the deletion log. -/
structure Site (C : Type) [Blob C] where
  world : World C
  log : AList fun _ : Path => LogRow C

abbrev GcProg (C : Type) [Blob C] := Eff (Site C) GcExn

def onWorld {α : Type} (m : Prog C α) : GcProg C α :=
  Eff.within Site.world (fun w s => { s with world := w }) .storage m

/-- What `shutil.disk_usage` reports; `none` where it raises. -/
abbrev DiskUsage := Option (Nat × Nat × Nat)

/-- What the operating system says during one call. -/
structure Machine where
  mtime : Path → Option Int
  diskBefore : DiskUsage
  diskAfter : DiskUsage

structure EvidenceFiles where
  cutoverVerify : Evidence
  grace : Evidence
  invariant : Evidence

/-- `GcResult.status` -/
inductive GcStatus where
  | dryRunComplete
  | executed
  | blockedGracePeriod
  | blockedInvariantFail
deriving DecidableEq, Repr

structure GcResult where
  status : GcStatus
  tier : String
  deletionTargets : List Path := []
  targetSizeBytes : Nat := 0
  deletedCount : Nat := 0
  freedBytes : Nat := 0
  freeDiskPctAfter : ℚ := 0
  graceRemainingDays : Int := 0
  invariantFailReason : Reason := .none

structure GcRunner where
  localL2Root : Path
  graceDaysRequired : Int := 7
  invariantPassDaysRequired : Int := 7
  diskPressureThresholdPct : ℚ := 90
  /-- `int` on a string; `none` is the `ValueError`. -/
  parseInt : String → Option Int

namespace GcRunner

variable (g : GcRunner)

/-- `int(value)`; `none` is the `ValueError`, which the callers handle. -/
def toInt : JsonValue → Except GcExn (Option Int)
  | .null => .error .typeError
  | .bool b => .ok (some (if b then 1 else 0))
  | .int n => .ok (some n)
  | .float truncated => .ok (some truncated)
  | .nan => .ok none
  | .infinity => .error .overflowError
  | .str s => .ok (g.parseInt s)
  | .nested => .error .typeError

/-- `_check_cutover_rpo_verified`; `none` is a pass. Of the errors of a read only a JSON
error and an `OSError` are handled here. -/
def checkCutoverRpoVerified : Evidence → Except GcExn (Option Reason)
  | .missing => .ok (some .cutoverVerifyEvidenceFileMissing)
  | .osError | .invalidJson => .ok (some .cutoverVerifyParseError)
  | .undecodable => .error .unicodeDecodeError
  | .notAnObject => .error .attributeError
  | .object fields =>
    let status := getField fields "status" (.str "")
    if status = .str "rpo_zero_verified" then .ok none
    else .ok (some (.cutoverVerifyStatus status))

/-- `_check_grace_period_expired`: whether it has, and the days left. -/
def checkGracePeriodExpired : Evidence → Except GcExn (Bool × Int)
  | .missing | .osError | .undecodable | .invalidJson => .ok (false, g.graceDaysRequired)
  | .notAnObject => .error .attributeError
  | .object fields => do
    match ← g.toInt (getField fields "grace_remaining_days" (.int g.graceDaysRequired)) with
    | none => pure (false, g.graceDaysRequired)
    | some remaining => pure (decide (remaining ≤ 0), remaining)

/-- `_check_invariant_all_pass_7d`; `none` is a pass. -/
def checkInvariantAllPass7d : Evidence → Except GcExn (Option Reason)
  | .missing => .ok (some .invariantEvidenceFileMissing)
  | .osError | .undecodable | .invalidJson => .ok (some .invariantEvidenceParseError)
  | .notAnObject => .error .attributeError
  | .object fields => do
    match ← g.toInt (getField fields "invariant_pass_days_consecutive" (.int 0)) with
    | none => pure (some .invariantEvidenceParseError)
    | some passDays =>
      if g.invariantPassDaysRequired ≤ passDays then pure none
      else pure (some (.invariantPassDays passDays g.invariantPassDaysRequired))

/-- `_compute_disk_usage_pct` and `_compute_free_disk_pct`, by the part they look at. -/
def diskPct (disk : DiskUsage) (part : Nat × Nat × Nat → Nat) : ℚ :=
  match disk with
  | none => 0
  | some usage => if usage.1 = 0 then 0 else part usage / usage.1 * 100

/-- `_list_deletion_targets`. The tier is not looked at. -/
def listDeletionTargets (m : Machine) (w : World C) (_tier : String) : List Path :=
  let targets := sortKeys (w.files.keys.filter fun path =>
    g.localL2Root.isPrefixOf path && decide (path ≠ g.localL2Root) &&
      hasSuffix ".parquet" (basename path))
  if g.diskPressureThresholdPct < diskPct m.diskBefore fun usage => usage.2.1 then
    targets.insertionSort fun a b => (m.mtime a).getD 0 ≤ (m.mtime b).getD 0
  else targets

/-- `_safe_file_size` -/
def safeFileSize (w : World C) (path : Path) : Nat :=
  ((w.files.lookup path).map Blob.size).getD 0

/-- `_is_already_deleted` -/
def isAlreadyDeleted (log : AList fun _ : Path => LogRow C) (path : Path) : Bool :=
  match log.lookup path with
  | none => false
  | some row => decide (row.recoveryStatus = .confirmedDeleted ∨ row.recoveryStatus = .expired)

/-- `_append_deletion_log`, an insert-or-replace. -/
def appendDeletionLog (path : Path) (row : LogRow C) : GcProg C Unit :=
  modify fun s => { s with log := s.log.insert path row }

/-- `_update_deletion_log` -/
def updateDeletionLog (path : Path) (status : RecoveryStatus) : GcProg C Unit :=
  modify fun s =>
    match s.log.lookup path with
    | none => s
    | some row => { s with log := s.log.insert path { row with recoveryStatus := status } }

/-- One turn of the deletion loop: what it adds to `deleted_count` and `freed_bytes`. -/
def deleteTarget (target : Path) : GcProg C (Nat × Nat) := do
  let s ← get
  let size := safeFileSize s.world target
  if isAlreadyDeleted s.log target then pure (0, 0)
  else
    appendDeletionLog target
      ⟨(s.world.files.lookup target).map Blob.sha256, size, .pending⟩
    match ← outcome (onWorld (unlink target)) with
    | .ok () =>
      updateDeletionLog target .confirmedDeleted
      pure (1, size)
    | .error (.storage e) =>
      if e.isOSError then
        updateDeletionLog target .recoveryFailed
        pure (0, 0)
      else throw (.storage e)
    | .error e => throw e

def deleteTargets : List Path → GcProg C (Nat × Nat)
  | [] => pure (0, 0)
  | target :: rest => do
    let done ← deleteTarget target
    let more ← deleteTargets rest
    pure (done.1 + more.1, done.2 + more.2)

/-- The phases behind the gates. -/
def collect (m : Machine) (tier : String) (dryRun : Bool) : GcProg C GcResult := do
  let s ← get
  let targets := g.listDeletionTargets m s.world tier
  if dryRun then
    pure {
      status := .dryRunComplete, tier := tier, deletionTargets := targets
      targetSizeBytes := (targets.map (safeFileSize s.world)).sum }
  else
    let deleted ← deleteTargets targets
    pure {
      status := .executed, tier := tier, deletedCount := deleted.1, freedBytes := deleted.2
      freeDiskPctAfter := diskPct m.diskAfter fun usage => usage.2.2 }

/-- `gc` -/
def gc (ev : EvidenceFiles) (m : Machine) (tier : String) (dryRun : Bool) : GcProg C GcResult :=
  match checkCutoverRpoVerified ev.cutoverVerify with
  | .error e => throw e
  | .ok (some reason) =>
    pure { status := .blockedInvariantFail, tier := tier, invariantFailReason := reason }
  | .ok none =>
    match g.checkGracePeriodExpired ev.grace with
    | .error e => throw e
    | .ok (false, remaining) =>
      pure { status := .blockedGracePeriod, tier := tier, graceRemainingDays := remaining }
    | .ok (true, _) =>
      match g.checkInvariantAllPass7d ev.invariant with
      | .error e => throw e
      | .ok (some reason) =>
        pure { status := .blockedInvariantFail, tier := tier, invariantFailReason := reason }
      | .ok none => g.collect m tier dryRun

/-- The three gates let a run through. -/
def GatesOpen (ev : EvidenceFiles) : Prop :=
  checkCutoverRpoVerified ev.cutoverVerify = .ok none ∧
    (∃ remaining, g.checkGracePeriodExpired ev.grace = .ok (true, remaining)) ∧
    g.checkInvariantAllPass7d ev.invariant = .ok none

end GcRunner

open GcRunner

/-! ## the deletion loop -/

/-- Bucket, and files and log rows of the paths outside `S`, are the same. -/
structure Elsewhere (S : Path → Prop) (s s' : Site C) : Prop where
  nas : s'.world.nas = s.world.nas
  files : ∀ path, ¬ S path → s'.world.files.lookup path = s.world.files.lookup path
  log : ∀ path, ¬ S path → s'.log.lookup path = s.log.lookup path

namespace Elsewhere

variable {S T : Path → Prop} {s s' s'' : Site C}

theorem refl (S : Path → Prop) (s : Site C) : Elsewhere S s s :=
  ⟨rfl, fun _ _ => rfl, fun _ _ => rfl⟩

theorem trans (h : Elsewhere S s s') (h' : Elsewhere S s' s'') : Elsewhere S s s'' :=
  ⟨h'.nas.trans h.nas, fun path hS => (h'.files path hS).trans (h.files path hS),
    fun path hS => (h'.log path hS).trans (h.log path hS)⟩

theorem mono (h : Elsewhere S s s') (hST : ∀ path, S path → T path) : Elsewhere T s s' :=
  ⟨h.nas, fun path hT => h.files path fun hS => hT (hST path hS),
    fun path hT => h.log path fun hS => hT (hST path hS)⟩

/-- What the log says of a path outside `S` stays. -/
theorem isAlreadyDeleted (h : Elsewhere S s s') {path : Path} (hS : ¬ S path) :
    isAlreadyDeleted s'.log path = isAlreadyDeleted s.log path := by
  rw [GcRunner.isAlreadyDeleted, h.log path hS, GcRunner.isAlreadyDeleted]

end Elsewhere

instance (S : Path → Prop) : Std.Refl (Elsewhere (C := C) S) := ⟨Elsewhere.refl S⟩

instance (S : Path → Prop) : IsTrans (Site C) (Elsewhere S) := ⟨fun _ _ _ h h' => h.trans h'⟩

section

variable {target : Path} {s : Site C}

theorem elsewhere_appendDeletionLog (row : LogRow C) :
    Eff.Keeps (Elsewhere (· = target)) (appendDeletionLog target row) := by
  refine keeps_modify fun s => ⟨rfl, fun _ _ => rfl, fun path hne => ?_⟩
  exact AList.lookup_insert_ne hne

theorem updateDeletionLog_post (status : RecoveryStatus) (s : Site C) :
    wp (updateDeletionLog target status)
      (fun r s' => r = .ok () ∧ Elsewhere (· = target) s s' ∧ s'.world = s.world) s := by
  rw [updateDeletionLog, wp_modify]
  cases s.log.lookup target with
  | none => exact ⟨rfl, .refl _ s, rfl⟩
  | some row => exact ⟨rfl, ⟨rfl, fun _ _ => rfl, fun path hne => AList.lookup_insert_ne hne⟩, rfl⟩

/-- The unlink of a target is the only thing that can fail, and it then fails with an
`OSError`. Where the system refuses nothing, a file that is there is gone. -/
structure Unlinked (target : Path) (w : World C) (r : Except Exn Unit) (w' : World C) : Prop where
  nas : w'.nas = w.nas
  files : ∀ path, path ≠ target → w'.files.lookup path = w.files.lookup path
  raised : ∀ e, r = .error e → e.isOSError = true
  willing : w.unlinkFaults = Stream'.const false → w'.unlinkFaults = Stream'.const false
  gone : w.unlinkFaults = Stream'.const false → target ∉ w'.files

theorem unlink_post (target : Path) (w : World C) :
    wp (unlink target) (Unlinked target w) w := by
  have htail : w.unlinkFaults = Stream'.const false →
      w.unlinkFaults.tail = Stream'.const false := by
    intro h
    simp [h]
  simp only [unlink, wp_bind, wp_get, wp_set]
  by_cases hfault : w.unlinkFaults.head = true
  · have hnot : w.unlinkFaults ≠ Stream'.const false := by
      intro h
      cases h ▸ hfault
    rw [if_pos hfault]
    exact ⟨rfl, fun _ _ => rfl, fun e he => by cases he; rfl, htail, fun h => absurd h hnot⟩
  · rw [if_neg hfault]
    cases hc : w.files.lookup target with
    | none =>
      exact ⟨rfl, fun _ _ => rfl, fun e he => by cases he; rfl, htail,
        fun _ => AList.lookup_eq_none.mp hc⟩
    | some c =>
      exact ⟨rfl, fun path hne => AList.lookup_erase_ne hne, fun e he => (by cases he), htail,
        fun _ hmem => (AList.mem_erase.mp hmem).1 rfl⟩

/-- What one turn of the loop does: it touches its target only, and not even that if the
log records it as gone. -/
structure Turn (target : Path) (s s' : Site C) : Prop where
  elsewhere : Elsewhere (· = target) s s'
  skipped : isAlreadyDeleted s.log target = true → s' = s
  willing : s.world.unlinkFaults = Stream'.const false →
    s'.world.unlinkFaults = Stream'.const false
  gone : isAlreadyDeleted s.log target = false → s.world.unlinkFaults = Stream'.const false →
    target ∉ s'.world.files

theorem deleteTarget_post (target : Path) (s : Site C) :
    wp (deleteTarget target) (fun r s' => (∃ n, r = .ok n) ∧ Turn target s s') s := by
  refine wp_bind_ok (b := s) rfl ?_
  by_cases hdel : isAlreadyDeleted s.log target = true
  · rw [if_pos hdel]
    exact ⟨⟨_, rfl⟩, .refl _ s, fun _ => rfl, id, fun h => absurd (hdel.symm.trans h) (by decide)⟩
  rw [if_neg hdel]
  refine wp_bind_ok rfl ?_
  set s₁ := (Eff.after (appendDeletionLog target
    ⟨(s.world.files.lookup target).map Blob.sha256, safeFileSize s.world target, .pending⟩) s)
  have h₁ : Elsewhere (· = target) s s₁ := elsewhere_appendDeletionLog _ s
  -- the state after the unlink and a last change of the log
  have hupdate : ∀ status (n : Nat × Nat) r w', Unlinked target s₁.world r w' →
      wp (do updateDeletionLog target status; pure n)
        (fun r s' => (∃ n, r = .ok n) ∧ Turn target s s') { s₁ with world := w' } := by
    intro status n r w' hunlinked
    refine wp_seq (updateDeletionLog_post status _) ?_ fun e _ he => nomatch he.1
    rintro - s₃ ⟨-, h₃, hworld⟩
    have h₂ : Elsewhere (· = target) s₁ { s₁ with world := w' } :=
      ⟨hunlinked.nas, hunlinked.files, fun _ _ => rfl⟩
    exact ⟨⟨n, rfl⟩, (h₁.trans h₂).trans h₃, fun h => absurd h hdel, hworld ▸ hunlinked.willing,
      fun _ => hworld ▸ hunlinked.gone⟩
  refine wp_seq (P := fun r s' => ∃ r' w', Unlinked target s₁.world r' w' ∧
    s' = { s₁ with world := w' } ∧ r = .ok (r'.mapError GcExn.storage)) ?_ ?_
      fun e _ ⟨_, _, _, _, h⟩ => nomatch h
  · rw [wp_outcome, onWorld, wp_within]
    refine wp_mono (unlink_post target s₁.world) ?_
    intro r w' hunlinked
    cases r <;> exact ⟨_, w', hunlinked, rfl, rfl⟩
  rintro outcome - ⟨r', w', hunlinked, rfl, houtcome⟩
  cases houtcome
  cases r' with
  | ok u => exact hupdate .confirmedDeleted _ _ w' hunlinked
  | error e =>
    show wp (if e.isOSError = true then _ else _) _ _
    rw [if_pos (hunlinked.raised e rfl)]
    exact hupdate .recoveryFailed _ _ w' hunlinked

/-- The loop touches its targets only. -/
theorem deleteTargets_elsewhere (targets : List Path) (s : Site C) :
    wp (deleteTargets targets)
      (fun r s' => (∃ n, r = .ok n) ∧ Elsewhere (· ∈ targets) s s') s := by
  induction targets generalizing s with
  | nil => exact ⟨⟨_, rfl⟩, .refl _ s⟩
  | cons target rest ih =>
    refine wp_seq (deleteTarget_post target s) ?_ fun e _ he => he.1.elim fun _ h => nomatch h
    rintro n s₁ ⟨-, hturn⟩
    refine wp_seq (ih s₁) ?_ fun e _ he => he.1.elim fun _ h => nomatch h
    rintro n' s₂ ⟨-, hrest⟩
    exact ⟨⟨_, rfl⟩, (hturn.elsewhere.mono (by simp)).trans
      (hrest.mono fun path => List.mem_cons_of_mem _)⟩

/-- Where the log records every target as gone, the loop does nothing. -/
theorem deleteTargets_skips {targets : List Path}
    (hdel : ∀ target ∈ targets, isAlreadyDeleted s.log target = true) :
    wp (deleteTargets targets) (fun _ s' => s' = s) s := by
  induction targets with
  | nil => exact rfl
  | cons target rest ih =>
    refine wp_seq (deleteTarget_post target s) ?_ fun e _ he => he.1.elim fun _ h => nomatch h
    rintro n s₁ ⟨-, hturn⟩
    rw [hturn.skipped (hdel target List.mem_cons_self)]
    refine wp_seq (ih fun t ht => hdel t (List.mem_cons_of_mem _ ht)) ?_ fun _ _ h => h
    exact fun _ _ h => h

/-- Where the system refuses nothing, every other target is gone when the loop ends. -/
theorem deleteTargets_removes {targets : List Path} (hnodup : targets.Nodup)
    (htarget : target ∈ targets) (hdel : isAlreadyDeleted s.log target = false)
    (hwilling : s.world.unlinkFaults = Stream'.const false) :
    wp (deleteTargets targets) (fun _ s' => target ∉ s'.world.files) s := by
  induction targets generalizing s with
  | nil => simp at htarget
  | cons first rest ih =>
    obtain ⟨hfirst, hrest⟩ := List.nodup_cons.mp hnodup
    refine wp_seq (deleteTarget_post first s) ?_ fun e _ he => he.1.elim fun _ h => nomatch h
    rintro n s₁ ⟨-, hturn⟩
    by_cases heq : target = first
    · subst heq
      have hgone : target ∉ s₁.world.files := hturn.gone hdel hwilling
      refine wp_seq (deleteTargets_elsewhere rest s₁) ?_
        fun e _ he => he.1.elim fun _ h => nomatch h
      rintro n' s₂ ⟨-, hrest'⟩
      show target ∉ s₂.world.files
      rw [← AList.lookup_eq_none, hrest'.files target hfirst, AList.lookup_eq_none]
      exact hgone
    · have hin : target ∈ rest := (List.mem_cons.mp htarget).resolve_left heq
      have hdel' : isAlreadyDeleted s₁.log target = false :=
        (hturn.elsewhere.isAlreadyDeleted heq).trans hdel
      refine wp_seq (ih hrest hin hdel' (hturn.willing hwilling)) ?_ fun _ _ h => h
      exact fun _ _ h => h

end

/-! ## whole runs -/

section

variable {g : GcRunner} {m : Machine} {w : World C} {tier : String} {path : Path}

/-- The parquet files below the root, whatever the tier and the order. -/
theorem mem_listDeletionTargets :
    path ∈ g.listDeletionTargets m w tier ↔ path ∈ w.files ∧ g.localL2Root <+: path ∧
      path ≠ g.localL2Root ∧ hasSuffix ".parquet" (basename path) = true := by
  unfold listDeletionTargets
  split <;> simp [mem_sortKeys, AList.mem_keys, and_assoc]

theorem listDeletionTargets_nodup : (g.listDeletionTargets m w tier).Nodup := by
  have hbase : (sortKeys (w.files.keys.filter fun path =>
      g.localL2Root.isPrefixOf path && decide (path ≠ g.localL2Root) &&
        hasSuffix ".parquet" (basename path))).Nodup :=
    (sortKeys_perm _).nodup_iff.mpr (w.files.nodupKeys.filter _)
  unfold listDeletionTargets
  split
  · exact (List.perm_insertionSort _ _).nodup_iff.mpr hbase
  · exact hbase

/-- A run with a closed gate changes nothing. -/
theorem gc_closed {ev : EvidenceFiles} (hclosed : ¬ g.GatesOpen ev) (dryRun : Bool) (s : Site C) :
    Eff.after (g.gc ev m tier dryRun) s = s := by
  unfold gc
  split
  iterate 2 · rfl
  rename_i hcutover
  split
  iterate 2 · rfl
  rename_i hgrace
  split
  iterate 2 · rfl
  rename_i hinvariant
  exact absurd ⟨hcutover, ⟨_, hgrace⟩, hinvariant⟩ hclosed

/-- A run with all gates open collects. -/
theorem gc_open {ev : EvidenceFiles} (hopen : g.GatesOpen ev) (dryRun : Bool) :
    (g.gc ev m tier dryRun : GcProg C GcResult) = g.collect m tier dryRun := by
  obtain ⟨hcutover, ⟨remaining, hgrace⟩, hinvariant⟩ := hopen
  simp only [gc, hcutover, hgrace, hinvariant]

end

/-- A file belongs to a tier by a component `tier=L2` or by a directory `L2`. -/
def OfTier (tier : String) (path : Path) : Prop :=
  extractTier path = some tier ∨ tier ∈ path.dropLast

/-- Every file that is gone from `s` in `s'` belongs to the tier, and the NAS holds its
bytes under its key. -/
def DeletesReplicated (keyOf : Path → Key) (tier : String) (s s' : Site C) : Prop :=
  ∀ path c, s.world.files.lookup path = some c → path ∉ s'.world.files →
    OfTier tier path ∧ HoldsNas s.world (keyOf path) c

/-- The same runner on another bucket, with other refusals of the system. -/
def Site.withNas (s : Site C) (nas : AList fun _ : Key => Obj C) (unlinkFaults : Stream' Bool) :
    Site C :=
  { s with world := { s.world with nas := nas, unlinkFaults := unlinkFaults } }

/-- **Safety of the collection, exactly.** For a local tree, evidence files, a deletion log
and a tier, a run deletes only files of the tier that are replicated, whatever the NAS
holds, if and only if a gate is closed or the log already records every parquet file below
the root as gone. -/
theorem gc_safe_iff (g : GcRunner) (ev : EvidenceFiles) (m : Machine) (tier : String)
    (keyOf : Path → Key) (s : Site C) :
    (∀ nas unlinkFaults, DeletesReplicated keyOf tier (s.withNas nas unlinkFaults)
        (Eff.after (g.gc ev m tier false) (s.withNas nas unlinkFaults))) ↔
      ¬ g.GatesOpen ev ∨ ∀ path ∈ g.listDeletionTargets m s.world tier,
        isAlreadyDeleted s.log path = true := by
  constructor
  · intro hsafe
    by_contra hcond
    obtain ⟨hopen, hmarked⟩ := not_or.mp hcond
    have hopen := not_not.mp hopen
    push Not at hmarked
    obtain ⟨path, htarget, hunmarked⟩ := hmarked
    have hdel : isAlreadyDeleted s.log path = false := Bool.eq_false_iff.mpr hunmarked
    obtain ⟨c, hc⟩ := exists_lookup (mem_listDeletionTargets.mp htarget).1
    -- an empty bucket, and a system that refuses nothing
    have hgone : path ∉ (Eff.after (g.gc ev m tier false)
        (s.withNas ∅ (Stream'.const false))).world.files := by
      rw [gc_open hopen]
      show wp (g.collect m tier false) (fun _ s' => path ∉ s'.world.files)
        (s.withNas ∅ (Stream'.const false))
      refine wp_bind_ok rfl ?_
      exact wp_seq (deleteTargets_removes listDeletionTargets_nodup htarget hdel rfl)
        (fun _ _ h => h) fun _ _ h => h
    obtain ⟨-, o, ho, -⟩ := hsafe ∅ (Stream'.const false) path c hc hgone
    exact nomatch ho
  · intro hcond nas unlinkFaults path c hc hgone
    have hsame : Eff.after (g.gc ev m tier false) (s.withNas nas unlinkFaults) =
        s.withNas nas unlinkFaults := by
      rcases hcond with hclosed | hmarked
      · exact gc_closed hclosed false _
      · by_cases hopen : g.GatesOpen ev
        · rw [gc_open hopen]
          show wp (g.collect m tier false) (fun _ s' => s' = s.withNas nas unlinkFaults)
            (s.withNas nas unlinkFaults)
          refine wp_bind_ok rfl ?_
          exact wp_seq (deleteTargets_skips hmarked) (fun _ _ h => h) fun _ _ h => h
        · exact gc_closed hopen false _
    rw [hsame] at hgone
    exact absurd (AList.lookup_isSome.mp (Option.isSome_of_eq_some hc)) hgone

/-- A runner on `/data/L2`; no string is a number. -/
def l2Runner : GcRunner where
  localL2Root := ["L2"]
  parseInt _ := none

/-- Evidence of a verified cutover, with the grace period over. -/
def openEvidence : EvidenceFiles where
  cutoverVerify := .object [("status", .str "rpo_zero_verified")]
  grace := .object [("grace_remaining_days", .int 0)]
  invariant := .object [("invariant_pass_days_consecutive", .int 7)]

def idleMachine : Machine where
  mtime _ := none
  diskBefore := none
  diskAfter := none

/-- A segment that no bucket holds. -/
def freshSegment : Site String where
  world :=
    { files := .singleton ["L2", "a.parquet"] "rows"
      dirs := []
      nas := ∅
      retryQueue := none
      replies := .const (.ok "" none)
      unlinkFaults := .const false }
  log := ∅

/-- The segment, which the NAS does not have, is deleted. -/
theorem gc_deletes_fresh_segment :
    ((l2Runner.gc openEvidence idleMachine "L2" false).result freshSegment).toOption.map
        GcResult.status = some .executed ∧
      (Eff.after (l2Runner.gc openEvidence idleMachine "L2" false)
        freshSegment).world.files.lookup ["L2", "a.parquet"] = none ∧
      ∀ keyOf, ¬ DeletesReplicated keyOf "L2" freshSegment
        (Eff.after (l2Runner.gc openEvidence idleMachine "L2" false) freshSegment) := by
  have hgone : (Eff.after (l2Runner.gc openEvidence idleMachine "L2" false)
      freshSegment).world.files.lookup ["L2", "a.parquet"] = none := by decide +kernel
  refine ⟨by decide +kernel, hgone, fun keyOf hsafe => ?_⟩
  obtain ⟨-, o, ho, -⟩ := hsafe ["L2", "a.parquet"] "rows" rfl (AList.lookup_eq_none.mp hgone)
  exact nomatch ho

end MctraderData.Gc
