import MctraderData.Migration.RekeySafety

/-!
# mctrader-data — a re-key run that nothing disturbs

What a run does while the NAS answers every request and the process lives. A `View` keeps
of the site what decides the run: for each key the bytes, the sha256 and whether there is
a version id; for each manifest row its keys and its status; the sentinels; the deletes.
On views a partition is a function, `View.settle`, and so is a batch, `View.sweep`; the
code computes them.

## Results

* `processPartition_calmly` — one partition, from any status it may be resumed in.
* `run_calmly`, `run_idle` — a whole run, with and without candidates.
-/

namespace MctraderData.Migration

open Lib Eff
open Nas

variable {C : Type} [Blob C]

/-! ## buckets -/

/-- What a run reads of a stored object. -/
structure Stored (C : Type) [Blob C] where
  body : C
  sha256 : Option (Blob.Digest C)
  versioned : Bool

def stored (o : Obj C) : Stored C := ⟨o.body, o.sha256, truthy o.versionId⟩

abbrev Bucket (C : Type) [Blob C] := Key → Option (Stored C)

def bucketOf (nas : AList fun _ : Key => Obj C) : Bucket C :=
  fun key => (nas.lookup key).map stored

/-- The checks of the verification. -/
def Stored.passes (src dst : Stored C) : Bool :=
  dst.versioned &&
    (match src.sha256, dst.sha256 with
      | none, none => true
      | some s, some d => decide (s = d)
      | _, _ => false) &&
    decide (Blob.size src.body = Blob.size dst.body)

/-- Both have a sha256, so that a copy is not made again. -/
def Stored.comparable (src dst : Stored C) : Bool := src.sha256.isSome && dst.sha256.isSome

/-- A manifest row without what only a report reads. -/
structure Line where
  partitionId : String
  oldKey : Key
  newKey : Key
  status : Status
deriving DecidableEq

def PartitionEntry.line (e : PartitionEntry C) : Line :=
  ⟨e.partitionId, e.oldKey, e.newKey, e.status⟩

namespace Bucket

/-- After the copy of a partition. -/
def copied (b : Bucket C) (old new : Key) : Bucket C :=
  match b old with
  | none => b
  | some src =>
    if (b new).any src.comparable then b
    else Function.update b new (some { src with versioned := true })

/-- How the verification of a partition ends; `done` is to go on and delete. -/
def checked (b : Bucket C) (old new : Key) : Status :=
  match b old, b new with
  | some src, some dst =>
    if src.passes dst then
      if src.sha256.isNone && dst.sha256.isNone then .legacyNoSha256 else .done
    else .failed
  | _, _ => .failed

/-- How a partition ends. -/
def verdict (b : Bucket C) (l : Line) : Status :=
  if l.status.skipsVerify then .done
  else if l.status.skipsCopy then b.checked l.oldKey l.newKey
  else match b l.oldKey with
    | none => if (b l.newKey).any fun dst => dst.sha256.isSome then .done else .failed
    | some _ => (b.copied l.oldKey l.newKey).checked l.oldKey l.newKey

/-- The bucket after a partition. -/
def settled (dryRun : Bool) (b : Bucket C) (l : Line) : Bucket C :=
  let b' := if l.status.skipsCopy then b else b.copied l.oldKey l.newKey
  if b.verdict l = .done ∧ dryRun = false then Function.update b' l.oldKey none else b'

/-- Whether a delete is issued for a partition. -/
def issues (dryRun : Bool) (b : Bucket C) (l : Line) : Prop :=
  b.verdict l = .done ∧ dryRun = false ∧ (l.status.skipsVerify = true ∨ (b l.oldKey).isSome = true)

instance (dryRun : Bool) (b : Bucket C) (l : Line) : Decidable (b.issues dryRun l) :=
  inferInstanceAs (Decidable (_ ∧ _ ∧ _))

end Bucket

/-! ## views -/

/-- The rows with a new status for one partition. -/
def restatus (partitionId : String) (status : Status) (lines : List Line) : List Line :=
  lines.map fun l => if l.partitionId = partitionId then { l with status := status } else l

/-- What decides a run. -/
@[ext]
structure View (C : Type) [Blob C] where
  bucket : Bucket C
  lines : List Line
  file : Option (List Line)
  sentinels : List Path
  deletes : List Key

def Site.view (cfg : RekeyConfig) (s : Site C) : View C where
  bucket := bucketOf s.nas
  lines := s.memory.map PartitionEntry.line
  file := (s.manifests.lookup (manifestName cfg)).map (List.map PartitionEntry.line)
  sentinels := s.sentinels
  deletes := s.deletes.map Prod.fst

namespace View

/-- A status is set and the manifest written. -/
def record (v : View C) (partitionId : String) (status : Status) : View C :=
  { v with
    lines := restatus partitionId status v.lines
    file := some (restatus partitionId status v.lines) }

def mark (v : View C) (path : Path) : View C :=
  { v with sentinels := if path ∈ v.sentinels then v.sentinels else path :: v.sentinels }

section

variable (digest : Digest16) (cfg : RekeyConfig)

/-- The view after a partition. -/
def settle (v : View C) (l : Line) : View C where
  bucket := v.bucket.settled cfg.dryRun l
  lines := restatus l.partitionId (v.bucket.verdict l) v.lines
  file := some (restatus l.partitionId (v.bucket.verdict l) v.lines)
  sentinels :=
    if v.bucket.verdict l = .done then
      (v.mark (sentinelPath digest cfg l.partitionId)).sentinels
    else v.sentinels
  deletes := if v.bucket.issues cfg.dryRun l then l.oldKey :: v.deletes else v.deletes

/-- The view after a batch that is ended by nothing but its threshold. -/
def sweep : List Line → Nat → Nat → View C → View C
  | [], _, _, v => v
  | l :: rest, processed, failedInBatch, v =>
    if v.bucket.verdict l = .failed then
      if abortsBatch cfg.threshold (failedInBatch + 1) (processed + 1) then
        v.settle digest cfg l
      else sweep rest (processed + 1) (failedInBatch + 1) (v.settle digest cfg l)
    else sweep rest (processed + 1) failedInBatch (v.settle digest cfg l)

end

end View

/-! ## calm runs -/

/-- The NAS answers and the process lives from here on. -/
structure Calm (s : Site C) : Prop where
  answered : Versioned s.world.replies
  lives : ∀ n, s.crashes.get n = false

variable {digest : Digest16} {cfg : RekeyConfig} {s : Site C} {v v' : View C} {α β : Type}

variable (cfg) in
/-- From `s` the block returns, all stays calm, and `P` holds of what it returns and of the
view after it. -/
def Calmly (m : Job C α) (s : Site C) (P : α → View C → Prop) : Prop :=
  wp m (fun r s' => ∃ a, r = .ok a ∧ Calm s' ∧ P a (s'.view cfg)) s

variable (cfg) in
/-- It does so from every calm site with the view `v`. -/
def CalmlyOn (m : Job C α) (v : View C) (P : α → View C → Prop) : Prop :=
  ∀ s, Calm s → s.view cfg = v → Calmly cfg m s P

variable (cfg) in
/-- It returns `a` and leaves the view `v'`. -/
abbrev Yields (m : Job C α) (v : View C) (a : α) (v' : View C) : Prop :=
  CalmlyOn cfg m v fun r w => r = a ∧ w = v'

variable {P : α → View C → Prop} {Q : α → View C → Prop}

theorem CalmlyOn.mono {m : Job C α} (hm : CalmlyOn cfg m v P) (h : ∀ a v', P a v' → Q a v') :
    CalmlyOn cfg m v Q := by
  intro s hcalm hv
  refine wp_mono (hm s hcalm hv) ?_
  rintro r s' ⟨a, hr, hcalm', hP⟩
  exact ⟨a, hr, hcalm', h a _ hP⟩

theorem CalmlyOn.bind {m : Job C β} {f : β → Job C α} {P : β → View C → Prop}
    (hm : CalmlyOn cfg m v P) (hf : ∀ b v', P b v' → CalmlyOn cfg (f b) v' Q) :
    CalmlyOn cfg (m >>= f) v Q := by
  intro s hcalm hv
  refine wp_seq (hm s hcalm hv) ?_ ?_
  · rintro b s' ⟨b', hb, hcalm', hP⟩
    cases hb
    exact hf b _ hP s' hcalm' rfl
  · rintro e s' ⟨b', hb, -⟩
    cases hb

theorem Yields.bind {m : Job C β} {f : β → Job C α} {b : β} (hm : Yields cfg m v b v')
    (hf : CalmlyOn cfg (f b) v' P) : CalmlyOn cfg (m >>= f) v P := by
  refine CalmlyOn.bind hm ?_
  rintro _ _ ⟨rfl, rfl⟩
  exact hf

theorem calmlyOn_pure {a : α} (hP : P a v) : CalmlyOn cfg (pure a) v P := by
  rintro s hcalm rfl
  exact ⟨a, rfl, hcalm, hP⟩

theorem Calm.tail (h : Calm s) : Calm { s with crashes := s.crashes.tail } :=
  ⟨h.answered, fun n => h.lives (n + 1)⟩

theorem wp_alive (h : Calm s) :
    wp alive (fun r s' => r = .ok () ∧ s' = { s with crashes := s.crashes.tail }) s := by
  have hhead : s.crashes.head = false := h.lives 0
  simp only [alive, wp_bind, wp_get, wp_set, hhead]
  exact ⟨rfl, rfl⟩

/-- A call of the uploader whose exceptions are caught. -/
theorem attempt_calmly {m : Prog C α} {P : Except Exn α → View C → Prop}
    (hm : ∀ s, Calm s → s.view cfg = v → wp m (fun r w' => Versioned w'.replies ∧
      P r { v with bucket := bucketOf w'.nas }) s.world) :
    CalmlyOn cfg (attempt (onNas m)) v P := by
  rintro s h rfl
  have hhead : s.crashes.head = false := h.lives 0
  simp only [Calmly, attempt, onNas, alive, wp_tryCatch, wp_bind, wp_get, wp_set,
    hhead, Bool.false_eq_true, if_false, wp_pure, wp_within]
  refine wp_mono (hm s h rfl) ?_
  rintro r w' ⟨hreplies, hP⟩
  have hcalm : Calm { s with world := w', crashes := s.crashes.tail } :=
    ⟨hreplies, fun n => h.lives (n + 1)⟩
  cases r with
  | ok a => exact ⟨.ok a, rfl, hcalm, hP⟩
  | error e => exact ⟨.error e, rfl, hcalm, hP⟩

theorem head_calmly (key : Key) :
    CalmlyOn cfg (attempt (onNas (headObject key))) v fun r v' => v' = v ∧
      match v.bucket key with
      | some src => ∃ o, stored o = src ∧ r = .ok o.head
      | none => r = .error (.clientError "404") := by
  refine attempt_calmly fun s h hv => wp_mono (headObject_answered h.answered) ?_
  rintro r w' ⟨rfl, hr⟩
  subst hv
  refine ⟨h.answered.drop 1, rfl, ?_⟩
  simp only [Site.view, bucketOf]
  cases hlookup : s.nas.lookup key with
  | none =>
    rw [hlookup] at hr
    exact hr
  | some o =>
    rw [hlookup] at hr
    exact ⟨o, rfl, hr⟩

theorem writeAtomic_calmly : Yields cfg (writeAtomic cfg) v () { v with file := some v.lines } := by
  rintro s h rfl
  refine wp_seq (wp_alive h) ?_ fun _ _ h => nomatch h.1
  rintro _ s₁ ⟨-, rfl⟩
  refine ⟨(), rfl, ⟨h.tail.answered, h.tail.lives⟩, rfl, View.ext rfl rfl ?_ rfl rfl⟩
  have hfile : (s.manifests.insert (manifestName cfg) s.memory).lookup (manifestName cfg) =
      some s.memory := AList.lookup_insert _
  exact congrArg (Option.map (List.map PartitionEntry.line)) hfile

theorem writeSentinel_calmly (partitionId : String) :
    Yields cfg (writeSentinel digest cfg partitionId) v ()
      (v.mark (sentinelPath digest cfg partitionId)) := by
  rintro s h rfl
  refine wp_seq (wp_alive h) ?_ fun _ _ h => nomatch h.1
  rintro _ s₁ ⟨-, rfl⟩
  rw [wp_modify]
  by_cases hmem : sentinelPath digest cfg partitionId ∈ s.sentinels
  · rw [if_pos hmem]
    exact ⟨(), rfl, h.tail, rfl, View.ext rfl rfl rfl (if_pos hmem).symm rfl⟩
  · rw [if_neg hmem]
    exact ⟨(), rfl, ⟨h.tail.answered, h.tail.lives⟩, rfl,
      View.ext rfl rfl rfl (if_neg hmem).symm rfl⟩

variable {status : Status} {partitionId : String} {f : PartitionEntry C → PartitionEntry C}

theorem map_line_update {m : Manifest C} (hf : ∀ e, (f e).line = { e.line with status := status }) :
    (m.update partitionId f).map PartitionEntry.line =
      restatus partitionId status (m.map PartitionEntry.line) := by
  unfold Manifest.update restatus
  rw [List.map_map, List.map_map]
  refine List.map_congr_left fun e _ => ?_
  show (if e.partitionId = partitionId then f e else e).line =
    if e.partitionId = partitionId then { e.line with status := status } else e.line
  split
  · exact hf e
  · rfl

/-- A status is set, the manifest is written, and the block goes on. -/
theorem record_calmly (hf : ∀ e, (f e).line = { e.line with status := status }) {k : Job C α}
    (hk : CalmlyOn cfg k (v.record partitionId status) P) :
    CalmlyOn cfg (do setEntry partitionId f; writeAtomic cfg; k) v P := by
  have hset : Yields cfg (setEntry partitionId f) v ()
      { v with lines := restatus partitionId status v.lines } := by
    rintro s h rfl
    exact ⟨(), rfl, ⟨h.answered, h.lives⟩, rfl, View.ext rfl (map_line_update hf) rfl rfl rfl⟩
  exact hset.bind (writeAtomic_calmly.bind hk)

theorem fail_calmly (partitionId message : String) :
    Yields cfg (fail cfg partitionId message) v .failed (v.record partitionId .failed) :=
  record_calmly (fun _ => rfl) (calmlyOn_pure ⟨rfl, rfl⟩)

theorem restatus_restatus (partitionId : String) (status status' : Status) (lines : List Line) :
    restatus partitionId status' (restatus partitionId status lines) =
      restatus partitionId status' lines := by
  unfold restatus
  rw [List.map_map]
  refine List.map_congr_left fun l _ => ?_
  by_cases hl : l.partitionId = partitionId <;> simp [hl]

@[simp] theorem View.record_record (v : View C) (partitionId : String) (status status' : Status) :
    (v.record partitionId status).record partitionId status' = v.record partitionId status' := by
  simp only [View.record, restatus_restatus]

/-! ## one partition -/

variable {entry : PartitionEntry C}

theorem bucketOf_insert (nas : AList fun _ : Key => Obj C) (key : Key) (o : Obj C) :
    bucketOf (nas.insert key o) = Function.update (bucketOf nas) key (some (stored o)) := by
  funext k
  by_cases hk : k = key
  · subst hk
    simp [bucketOf]
  · simp [bucketOf, hk, AList.lookup_insert_ne hk]

theorem bucketOf_erase (nas : AList fun _ : Key => Obj C) (key : Key) :
    bucketOf (nas.erase key) = Function.update (bucketOf nas) key none := by
  funext k
  by_cases hk : k = key
  · subst hk
    simp [bucketOf]
  · simp [bucketOf, hk, AList.lookup_erase_ne hk]

theorem bucketOf_eq_none {nas : AList fun _ : Key => Obj C} {key : Key} :
    bucketOf nas key = none ↔ nas.lookup key = none :=
  Option.map_eq_none_iff

/-- The destination has a sha256, which decides when the source is gone. -/
abbrev Bucket.arrived (b : Bucket C) (new : Key) : Bool := (b new).any fun dst => dst.sha256.isSome

/-- The end of a partition whose source is gone. -/
theorem sourceNotFound_calmly :
    Yields cfg (sourceNotFound digest cfg entry) v
      (if v.bucket.arrived entry.newKey then .done else .failed)
      (if v.bucket.arrived entry.newKey then
        (v.record entry.partitionId .done).mark (sentinelPath digest cfg entry.partitionId)
      else v.record entry.partitionId .failed) := by
  unfold sourceNotFound Bucket.arrived
  refine (head_calmly entry.newKey).bind ?_
  rintro r v ⟨rfl, hr⟩
  cases hdst : v.bucket entry.newKey with
  | none =>
    rw [hdst] at hr
    subst hr
    exact fail_calmly entry.partitionId _
  | some dst =>
    rw [hdst] at hr
    obtain ⟨o, rfl, rfl⟩ := hr
    cases hsha : o.sha256 with
    | none =>
      simp only [Obj.head, stored, hsha, Option.any_some, Option.isSome_none]
      exact fail_calmly entry.partitionId _
    | some sha =>
      simp only [Obj.head, stored, hsha, Option.any_some, Option.isSome_some]
      exact record_calmly (fun _ => rfl)
        ((writeSentinel_calmly entry.partitionId).bind (calmlyOn_pure ⟨rfl, rfl⟩))

/-- Both objects have a sha256, and not the same one. -/
def Stored.Conflicts (src dst : Stored C) : Prop :=
  ∃ s d, src.sha256 = some s ∧ dst.sha256 = some d ∧ s ≠ d

/-- What `copyDecision` says of what is stored. -/
theorem copyDecision_cases (o d : Obj C) :
    copyDecision o d = none ∧ (stored o).comparable (stored d) = false ∨
      (stored o).comparable (stored d) = true ∧
        (copyDecision o d = some .alreadyExistsIdempotent ∨
          copyDecision o d = some .dstConflict ∧ (stored o).Conflicts (stored d)) := by
  unfold copyDecision Stored.comparable Stored.Conflicts stored
  cases o.sha256 with
  | none => simp
  | some s =>
    cases d.sha256 with
    | none => simp
    | some s' => by_cases hs : s = s' <;> simp [hs]

namespace Bucket

variable {b : Bucket C} {old new : Key} {src dst : Stored C}

theorem copied_of_comparable (hold : b old = some src)
    (hnew : b new = some dst) (h : src.comparable dst = true) : b.copied old new = b := by
  simp only [copied, hold, hnew, Option.any_some, h, if_true]

theorem checked_of_conflict (hold : b old = some src) (hnew : b new = some dst)
    (h : src.Conflicts dst) : b.checked old new = .failed := by
  obtain ⟨s, d, hs, hd, hne⟩ := h
  have hfails : src.passes dst = false := by
    simp only [Stored.passes, hs, hd, hne, decide_false, Bool.and_false, Bool.false_and]
  simp only [checked, hold, hnew, hfails, Bool.false_eq_true, if_false]

end Bucket

variable {src : Stored C}

/-- A copy of an object that is there: it is made if it is needed, or the object at the
destination forbids it. -/
theorem copy_calmly {old new : Key} (hsrc : v.bucket old = some src) :
    CalmlyOn cfg (attempt (onNas (copyObject old new))) v fun r v' =>
      v' = { v with bucket := v.bucket.copied old new } ∧ ∃ copy, r = .ok copy ∧
        (copy.status = .copied ∨ copy.status = .alreadyExistsIdempotent ∨
          copy.status = .dstConflict ∧ (v.bucket.copied old new).checked old new = .failed) := by
  refine attempt_calmly fun s h hv => wp_mono (copyObject_answered h.answered) ?_
  subst hv
  obtain ⟨o, ho, rfl⟩ : ∃ o, s.nas.lookup old = some o ∧ stored o = src :=
    Option.map_eq_some_iff.mp hsrc
  intro r w' houtcome
  cases houtcome with
  | missing hnone => cases hnone.symm.trans ho
  | decided ho' hd hstatus hw =>
    rename_i o' d res
    cases Option.some.inj (ho.symm.trans ho')
    have hdst : bucketOf s.nas new = some (stored d) := congrArg (Option.map stored) hd
    obtain ⟨hnone, -⟩ | ⟨hcomparable, hdecided⟩ := copyDecision_cases o d
    · cases hnone.symm.trans hstatus
    rw [hstatus, Option.some.injEq, Option.some.injEq] at hdecided
    have hsame := Bucket.copied_of_comparable hsrc hdst hcomparable
    obtain ⟨n, rfl⟩ := hw
    refine ⟨h.answered.drop n, View.ext hsame.symm rfl rfl rfl rfl, res, rfl, Or.inr ?_⟩
    rw [hsame]
    exact hdecided.imp id fun hconflict =>
      ⟨hconflict.1, Bucket.checked_of_conflict hsrc hdst hconflict.2⟩
  | copied ho' hd hstatus hversion hw =>
    rename_i o' res etag versionId
    cases Option.some.inj (ho.symm.trans ho')
    obtain ⟨n, rfl⟩ := hw
    refine ⟨h.answered.drop n, View.ext ?_ rfl rfl rfl rfl, res, rfl, Or.inl hstatus⟩
    show bucketOf (s.nas.insert new _) = (bucketOf s.nas).copied old new
    -- what lay at the new key cannot be compared, or it would have decided
    have hnew : (bucketOf s.nas new).any (stored o).comparable = false := by
      cases hlookup : s.nas.lookup new with
      | none => rw [bucketOf_eq_none.mpr hlookup, Option.any_none]
      | some d =>
        have hdst : bucketOf s.nas new = some (stored d) := congrArg (Option.map stored) hlookup
        rw [hdst, Option.any_some]
        obtain ⟨-, hnot⟩ | ⟨-, hsome | ⟨hsome, -⟩⟩ := copyDecision_cases o d
        · exact hnot
        all_goals cases (hd d hlookup).symm.trans hsome
    have hold : bucketOf s.nas old = some (stored o) := hsrc
    have htruthy : truthy (some versionId) = true := decide_eq_true hversion
    simp only [bucketOf_insert, Bucket.copied, hold, hnew, Bool.false_eq_true, if_false]
    simp only [stored, htruthy]

/-- Step A. -/
theorem stepCopy_calmly (hsrc : v.bucket entry.oldKey = some src) :
    CalmlyOn cfg (stepCopy digest cfg entry) v fun r v' =>
      ∃ status, v' = { v.record entry.partitionId status with
        bucket := v.bucket.copied entry.oldKey entry.newKey } ∧
      (r = none ∧ status = .copied ∨ r = some .failed ∧ status = .failed ∧
        (v.bucket.copied entry.oldKey entry.newKey).checked entry.oldKey entry.newKey =
          .failed) := by
  refine record_calmly (fun _ => rfl)
    ((copy_calmly (v := v.record entry.partitionId .copying) hsrc).bind ?_)
  rintro r _ ⟨rfl, copy, rfl, hstatus⟩
  dsimp only
  rcases hstatus with hstatus | hstatus | ⟨hstatus, hfailed⟩ <;> rw [hstatus]
  iterate 2
    refine record_calmly (fun _ => rfl) (calmlyOn_pure ⟨.copied, ?_, Or.inl ⟨rfl, rfl⟩⟩)
    simp only [View.record, restatus_restatus]
  refine (fail_calmly entry.partitionId _).bind
    (calmlyOn_pure ⟨.failed, ?_, Or.inr ⟨rfl, rfl, hfailed⟩⟩)
  simp only [View.record, restatus_restatus]

/-- Step A when there is nothing to copy. -/
theorem stepCopy_calmly_missing (hsrc : v.bucket entry.oldKey = none) :
    Yields cfg (stepCopy digest cfg entry) v
      (some (if v.bucket.arrived entry.newKey then .done else .failed))
      (if v.bucket.arrived entry.newKey then
        (v.record entry.partitionId .done).mark (sentinelPath digest cfg entry.partitionId)
      else v.record entry.partitionId .failed) := by
  have hcopy : Yields cfg (attempt (onNas (copyObject entry.oldKey entry.newKey)))
      (v.record entry.partitionId .copying) (.ok { status := .sourceNotFound })
      (v.record entry.partitionId .copying) := by
    refine attempt_calmly fun s h hv => wp_mono (copyObject_answered h.answered) ?_
    have hbucket : bucketOf s.nas = v.bucket := congrArg View.bucket hv
    have hnone : s.nas.lookup entry.oldKey = none := by
      rw [← bucketOf_eq_none, hbucket, hsrc]
    intro r w' houtcome
    cases houtcome with
    | missing _ hw =>
      obtain ⟨n, rfl⟩ := hw
      exact ⟨h.answered.drop n, rfl, View.ext hbucket rfl rfl rfl rfl⟩
    | decided ho => cases hnone.symm.trans ho
    | copied ho => cases hnone.symm.trans ho
  refine record_calmly (fun _ => rfl)
    (hcopy.bind (sourceNotFound_calmly.bind (calmlyOn_pure ⟨rfl, ?_⟩)))
  simp only [View.record_record]
  rfl

/-- The four checks look at the bucket only. -/
theorem verify4head_calmly :
    CalmlyOn cfg (verify4head entry) v fun r v' => v' = v ∧
      v.bucket.checked entry.oldKey entry.newKey = match r with
        | none => .failed
        | some (src, dst) =>
          if src.sha256.isNone && dst.sha256.isNone then .legacyNoSha256 else .done := by
  refine (head_calmly entry.oldKey).bind ?_
  rintro r v ⟨rfl, hr⟩
  cases hold : v.bucket entry.oldKey with
  | none =>
    rw [hold] at hr
    subst hr
    exact calmlyOn_pure ⟨rfl, by simp only [Bucket.checked, hold]⟩
  | some src =>
    rw [hold] at hr
    obtain ⟨o, rfl, rfl⟩ := hr
    refine (head_calmly entry.newKey).bind ?_
    rintro r v ⟨rfl, hr⟩
    cases hnew : v.bucket entry.newKey with
    | none =>
      rw [hnew] at hr
      subst hr
      exact calmlyOn_pure ⟨rfl, by simp only [Bucket.checked, hold, hnew]⟩
    | some dst =>
      rw [hnew] at hr
      obtain ⟨o', rfl, rfl⟩ := hr
      have hset : Yields cfg (setEntry entry.partitionId fun e =>
          { e with oldHead := o.head, newHead := o'.head }) v () v := by
        rintro s h rfl
        refine ⟨(), rfl, ⟨h.answered, h.lives⟩, rfl, View.ext rfl ?_ rfl rfl rfl⟩
        show List.map _ (List.map _ _) = List.map _ _
        rw [List.map_map]
        refine List.map_congr_left fun e _ => ?_
        show PartitionEntry.line (if _ then _ else _) = _
        split <;> rfl
      refine hset.bind (calmlyOn_pure ⟨rfl, ?_⟩)
      have hpasses : headsPass o.head o'.head = (stored o).passes (stored o') := rfl
      simp only [Bucket.checked, hold, hnew, hpasses]
      split <;> rfl

/-- Step B. -/
theorem stepVerify_calmly (hstatus : v.bucket.checked entry.oldKey entry.newKey = status) :
    Yields cfg (stepVerify cfg entry) v (if status = .done then none else some status)
      (v.record entry.partitionId (if status = .done then .verified else status)) := by
  refine record_calmly (fun _ => rfl) (verify4head_calmly.bind ?_)
  rintro r _ ⟨rfl, hchecked⟩
  have heq := hstatus.symm.trans hchecked
  cases r with
  | none =>
    subst heq
    exact (fail_calmly entry.partitionId _).bind (calmlyOn_pure ⟨rfl, View.record_record ..⟩)
  | some heads =>
    obtain ⟨src, dst⟩ := heads
    by_cases hsha : (src.sha256.isNone && dst.sha256.isNone) = true
    · simp only [hsha, if_true] at heq ⊢
      subst heq
      exact record_calmly (fun _ => rfl) (calmlyOn_pure ⟨rfl, View.record_record ..⟩)
    · simp only [hsha] at heq ⊢
      subst heq
      exact record_calmly (fun _ => rfl) (calmlyOn_pure ⟨rfl, View.record_record ..⟩)

/-- The view after the end of a partition that is done. -/
def View.finish (digest : Digest16) (cfg : RekeyConfig) (v : View C) (partitionId : String)
    (old : Key) : View C :=
  { (v.record partitionId .done).mark (sentinelPath digest cfg partitionId) with
    bucket := if cfg.dryRun then v.bucket else Function.update v.bucket old none
    deletes := if cfg.dryRun then v.deletes else old :: v.deletes }

/-- The delete itself. -/
theorem delete_calmly {key : Key} :
    Yields cfg (attempt (if cfg.dryRun then pure () else issueDelete key)) v (.ok ()) { v with
      bucket := if cfg.dryRun then v.bucket else Function.update v.bucket key none
      deletes := if cfg.dryRun then v.deletes else key :: v.deletes } := by
  rintro s h rfl
  cases hdry : cfg.dryRun with
  | true => exact ⟨.ok (), rfl, h, rfl, View.ext rfl rfl rfl rfl rfl⟩
  | false =>
    have hhead : s.crashes.head = false := h.lives 0
    simp only [Calmly, attempt, issueDelete, alive, wp_tryCatch, wp_bind, wp_get,
      wp_set, wp_modify, hhead, Bool.false_eq_true, if_false, wp_pure, wp_within]
    refine wp_mono (deleteObject_answered h.answered) ?_
    rintro r w' ⟨rfl, n, rfl⟩
    refine ⟨.ok (), rfl, ⟨h.answered.drop n, fun n => h.lives (n + 1)⟩, rfl, ?_⟩
    exact View.ext (bucketOf_erase s.nas key) rfl rfl rfl rfl

/-- Step C. -/
theorem stepDelete_calmly :
    Yields cfg (stepDelete digest cfg entry) v .done
      (v.finish digest cfg entry.partitionId entry.oldKey) := by
  refine record_calmly (fun _ => rfl) (delete_calmly.bind ?_)
  refine (writeSentinel_calmly entry.partitionId).bind (record_calmly (fun _ => rfl) ?_)
  refine calmlyOn_pure ⟨rfl, ?_⟩
  simp only [View.finish, View.mark, View.record, restatus_restatus]
  rfl

/-- Steps B and C. -/
theorem verifyThenDelete_calmly (hstatus : v.bucket.checked entry.oldKey entry.newKey = status) :
    Yields cfg (verifyThenDelete digest cfg entry) v status
      (if status = .done then v.finish digest cfg entry.partitionId entry.oldKey
        else v.record entry.partitionId status) := by
  refine (stepVerify_calmly hstatus).bind ?_
  by_cases hdone : status = .done
  · rw [if_pos hdone, if_pos hdone, if_pos hdone]
    refine stepDelete_calmly.mono ?_
    rintro r _ ⟨rfl, rfl⟩
    refine ⟨hdone.symm, ?_⟩
    simp only [View.finish, View.record_record]
    rfl
  · rw [if_neg hdone, if_neg hdone, if_neg hdone]
    exact calmlyOn_pure ⟨rfl, rfl⟩

theorem Status.skipsCopy_of_skipsVerify (h : status.skipsVerify = true) :
    status.skipsCopy = true := by
  cases status <;> first | rfl | cases h

namespace Bucket

variable {b : Bucket C} {old new key : Key} {l : Line}

theorem copied_of_ne (h : key ≠ new) : b.copied old new key = b key := by
  unfold copied
  cases b old with
  | none => rfl
  | some src =>
    show (if _ then b else Function.update b new _) key = b key
    split
    · rfl
    · rw [Function.update_of_ne h]

/-- A partition is verified only while its object is there. -/
theorem isSome_of_checked (h : b.checked old new = .done) : (b old).isSome = true := by
  unfold checked at h
  cases hold : b old with
  | none =>
    simp only [hold] at h
    cases h
  | some src => rfl

theorem verdict_of_skipsVerify (h : l.status.skipsVerify = true) : b.verdict l = .done := if_pos h

theorem verdict_of_skipsCopy (h : l.status.skipsVerify = false) (h' : l.status.skipsCopy = true) :
    b.verdict l = b.checked l.oldKey l.newKey := by
  simp only [verdict, h, h', Bool.false_eq_true, if_false, if_true]

variable (h : l.status.skipsCopy = false)
include h

/-- The status of a partition that begins with the copy. -/
theorem verdict_of_copy :
    b.verdict l = match b l.oldKey with
      | none => if (b l.newKey).any fun dst => dst.sha256.isSome then .done else .failed
      | some _ => (b.copied l.oldKey l.newKey).checked l.oldKey l.newKey := by
  have hverify : l.status.skipsVerify = false := by
    refine Bool.eq_false_iff.mpr fun hskips => ?_
    cases h.symm.trans (Status.skipsCopy_of_skipsVerify hskips)
  simp only [verdict, h, hverify, Bool.false_eq_true, if_false]

theorem verdict_of_source (hsrc : b l.oldKey = some src) :
    b.verdict l = (b.copied l.oldKey l.newKey).checked l.oldKey l.newKey := by
  rw [verdict_of_copy h, hsrc]

theorem verdict_of_missing (hsrc : b l.oldKey = none) :
    b.verdict l = if b.arrived l.newKey then .done else .failed := by
  rw [verdict_of_copy h, hsrc]

end Bucket

namespace View

variable {v : View C} {l : Line} {b : Bucket C}

section

variable (hb : (if l.status.skipsCopy then v.bucket else v.bucket.copied l.oldKey l.newKey) = b)
include hb

/-- The view after a partition that ends with a delete. -/
theorem settle_eq_finish (hdone : v.bucket.verdict l = .done)
    (hthere : l.status.skipsVerify = true ∨ (v.bucket l.oldKey).isSome = true) :
    v.settle digest cfg l = { v with bucket := b }.finish digest cfg l.partitionId l.oldKey := by
  subst hb
  have hissues : v.bucket.issues cfg.dryRun l ↔ cfg.dryRun = false :=
    ⟨fun h => h.2.1, fun h => ⟨hdone, h, hthere⟩⟩
  simp only [settle, finish, Bucket.settled, hdone, hissues, true_and, if_true, mark, record]
  cases cfg.dryRun <;> rfl

/-- The view after a partition that ends before. -/
theorem settle_eq_record {status : Status} (hverdict : v.bucket.verdict l = status)
    (hnot : status ≠ .done) :
    v.settle digest cfg l = { v.record l.partitionId status with bucket := b } := by
  subst hb
  have hissues : ¬ v.bucket.issues cfg.dryRun l := fun h => hnot (hverdict.symm.trans h.1)
  simp only [settle, Bucket.settled, hverdict, hnot, hissues, false_and, if_false, record]

/-- The view after a partition that was verified in the bucket `b`. -/
theorem settle_eq_checked (hverdict : v.bucket.verdict l = b.checked l.oldKey l.newKey)
    (hold : b l.oldKey = v.bucket l.oldKey) :
    v.settle digest cfg l =
      if b.checked l.oldKey l.newKey = .done then
        { v with bucket := b }.finish digest cfg l.partitionId l.oldKey
      else { v.record l.partitionId (b.checked l.oldKey l.newKey) with bucket := b } := by
  split
  · rename_i hdone
    refine settle_eq_finish hb (hverdict.trans hdone) (Or.inr ?_)
    rw [← hold]
    exact Bucket.isSome_of_checked hdone
  · rename_i hnot
    exact settle_eq_record hb hverdict hnot

end

/-- The view after a partition whose object is gone. -/
theorem settle_of_missing (hskips : l.status.skipsCopy = false)
    (hsrc : v.bucket l.oldKey = none) :
    v.settle digest cfg l = if v.bucket.arrived l.newKey then
        (v.record l.partitionId .done).mark (sentinelPath digest cfg l.partitionId)
      else v.record l.partitionId .failed := by
  have hverdict := Bucket.verdict_of_missing hskips hsrc
  have hsame : v.bucket.copied l.oldKey l.newKey = v.bucket := by simp only [Bucket.copied, hsrc]
  have hb : (if l.status.skipsCopy then v.bucket else v.bucket.copied l.oldKey l.newKey) =
      v.bucket := (if_neg (Bool.eq_false_iff.mp hskips)).trans hsame
  split
  · rename_i harrived
    rw [if_pos harrived] at hverdict
    have hissues : ¬ v.bucket.issues cfg.dryRun l := by
      rintro ⟨-, -, hverify | hthere⟩
      · exact absurd (Status.skipsCopy_of_skipsVerify hverify) (Bool.eq_false_iff.mp hskips)
      · rw [hsrc] at hthere
        cases hthere
    have hgone : Function.update v.bucket l.oldKey none = v.bucket := by
      rw [← hsrc, Function.update_eq_self]
    simp only [settle, Bucket.settled, hb, hverdict, hissues, hgone, ite_self, if_true, if_false]
    rfl
  · rename_i harrived
    rw [if_neg harrived] at hverdict
    rw [settle_eq_record hb hverdict (by decide)]
    rfl

end View

/-- **One partition**, while nothing disturbs it. -/
theorem processPartition_calmly (hne : entry.oldKey ≠ entry.newKey) :
    Yields cfg (processPartition digest cfg entry) v (v.bucket.verdict entry.line)
      (v.settle digest cfg entry.line) := by
  unfold processPartition
  by_cases hskipsVerify : entry.status.skipsVerify = true
  · rw [if_pos hskipsVerify, Bucket.verdict_of_skipsVerify hskipsVerify,
      View.settle_eq_finish (if_pos (Status.skipsCopy_of_skipsVerify hskipsVerify))
        (Bucket.verdict_of_skipsVerify hskipsVerify) (Or.inl hskipsVerify)]
    exact stepDelete_calmly
  rw [if_neg hskipsVerify]
  by_cases hskipsCopy : entry.status.skipsCopy = true
  · have hverdict : v.bucket.verdict entry.line = v.bucket.checked entry.oldKey entry.newKey :=
      Bucket.verdict_of_skipsCopy (Bool.eq_false_iff.mpr hskipsVerify) hskipsCopy
    rw [if_pos hskipsCopy, View.settle_eq_checked (if_pos hskipsCopy) hverdict rfl, hverdict]
    exact verifyThenDelete_calmly rfl
  rw [if_neg hskipsCopy]
  have hskips := Bool.eq_false_iff.mpr hskipsCopy
  cases hsrc : v.bucket entry.oldKey with
  | none =>
    rw [Bucket.verdict_of_missing hskips hsrc, View.settle_of_missing hskips hsrc]
    exact (stepCopy_calmly_missing hsrc).bind (calmlyOn_pure ⟨rfl, rfl⟩)
  | some src =>
    have hverdict : v.bucket.verdict entry.line =
        (v.bucket.copied entry.oldKey entry.newKey).checked entry.oldKey entry.newKey :=
      Bucket.verdict_of_source hskips hsrc
    rw [View.settle_eq_checked (if_neg hskipsCopy) hverdict (Bucket.copied_of_ne hne), hverdict]
    refine (stepCopy_calmly hsrc).bind ?_
    rintro r _ ⟨status, rfl, ⟨rfl, rfl⟩ | ⟨rfl, rfl, hfailed⟩⟩
    · refine (verifyThenDelete_calmly rfl).mono ?_
      rintro status _ ⟨rfl, rfl⟩
      refine ⟨rfl, ?_⟩
      simp only [View.finish, View.record, View.mark, restatus_restatus]
      rfl
    · refine calmlyOn_pure ⟨hfailed.symm, ?_⟩
      rw [show Bucket.checked _ entry.line.oldKey entry.line.newKey = .failed from hfailed]
      rfl

/-! ## a run -/

variable {launch : Launch}

/-- **A batch** that nothing but the threshold ends before its last partition. -/
theorem batch_calmly {entries : List (PartitionEntry C)} {processed failedInBatch : Nat}
    {result : RekeyResult} (hsigterm : ∀ n, launch.sigterm n = false)
    (hsize : processed + entries.length ≤ cfg.batchSize)
    (hmax : ∀ n, cfg.maxPartitions = some n → processed + entries.length ≤ n)
    (hne : ∀ e ∈ entries, e.oldKey ≠ e.newKey) :
    CalmlyOn cfg (batch digest cfg launch entries processed failedInBatch result) v fun _ v' =>
      v' = View.sweep digest cfg (entries.map PartitionEntry.line) processed failedInBatch v := by
  induction entries generalizing v processed failedInBatch result with
  | nil => exact calmlyOn_pure rfl
  | cons entry rest ih =>
    have hlength : (entry :: rest).length = rest.length + 1 := List.length_cons
    have hroom : ¬ cfg.batchSize ≤ processed := by omega
    have hallowed : ¬ (cfg.maxPartitions.any fun n => decide (n ≤ processed)) = true := by
      cases hn : cfg.maxPartitions with
      | none => rw [Option.any_none]; decide
      | some n =>
        have hbound := hmax n hn
        rw [Option.any_some, decide_eq_true_eq]
        omega
    have hrest : ∀ (v' : View C) (failedInBatch : Nat) (result : RekeyResult),
        CalmlyOn cfg (batch digest cfg launch rest (processed + 1) failedInBatch result) v'
          fun _ w => w = View.sweep digest cfg (rest.map PartitionEntry.line) (processed + 1)
            failedInBatch v' := by
      intro v' failedInBatch result
      refine ih (by omega) ?_ fun e he => hne e (List.mem_cons_of_mem entry he)
      intro n hn
      have hbound := hmax n hn
      omega
    unfold batch
    rw [if_neg (Bool.eq_false_iff.mp (hsigterm processed)), if_neg hroom, if_neg hallowed]
    refine (processPartition_calmly (hne entry List.mem_cons_self)).bind ?_
    rw [List.map_cons, View.sweep]
    cases v.bucket.verdict entry.line with
    | failed =>
      simp only [if_true]
      split
      · exact calmlyOn_pure rfl
      · exact hrest _ _ _
    | _ => exact hrest _ _ _

variable (cfg) in
/-- What `_discover_l1_objects` finds in a bucket. -/
def candidates (nas : AList fun _ : Key => Obj C) : List Key :=
  candidateKeys cfg.exchange
    (sortKeys (nas.keys.filter (legacyDiscoveryPrefix cfg.channel).isPrefixOf))

variable (digest cfg) in
/-- The manifest of a run after its candidates were registered. -/
def registered (s : Site C) : Manifest C :=
  populate digest cfg s.sentinels (candidates cfg s.nas)
    ((s.manifests.lookup (manifestName cfg)).getD [])

/-- Nothing stops a run before its first partition, and nothing disturbs it. -/
structure Ready (cfg : RekeyConfig) (launch : Launch) (s : Site C) : Prop where
  calm : Calm s
  allowed : cfg.dryRun = true ∨ cfg.iUnderstandIrreversible = true
  versioning : s.versioning = "Enabled"
  disk : 1024 ^ 3 ≤ launch.diskFree
  channel : cfg.channel ≠ ""
  sigterm : ∀ n, launch.sigterm n = false

/-- A run like `liveRun`, with any configuration, is ready on a versioned bucket. -/
theorem ready_of_versioning {cfg : RekeyConfig} {s : Site String}
    (hallowed : cfg.dryRun = true ∨ cfg.iUnderstandIrreversible = true)
    (hchannel : cfg.channel ≠ "") (h : s.versioning = "Enabled") :
    Ready cfg liveRun.launch ({ liveRun with config := cfg }.start s) where
  calm := ⟨fun _ => ⟨"", "v", by decide, rfl⟩, fun _ => rfl⟩
  allowed := hallowed
  versioning := h
  disk := Nat.le_refl _
  channel := hchannel
  sigterm := fun _ => rfl

/-- The bounds on a run are no bounds on what is left to do. -/
structure Roomy (digest : Digest16) (cfg : RekeyConfig) (s : Site C) : Prop where
  batchSize : (registered digest cfg s).resumable.length ≤ cfg.batchSize
  maxPartitions : ∀ n, cfg.maxPartitions = some n →
    (registered digest cfg s).resumable.length ≤ n

theorem roomy_of_length {n : Nat} (h : (registered digest cfg s).resumable.length = n)
    (hsize : n ≤ cfg.batchSize) (hmax : cfg.maxPartitions = none) : Roomy digest cfg s := by
  refine ⟨by rw [h]; exact hsize, ?_⟩
  intro m hm
  rw [hmax] at hm
  cases hm

theorem request_versioned {answer : Prog C α} {w : World C} (h : Versioned w.replies)
    {Q : Except Exn α → World C → Prop} (hanswer : wp answer Q w.next) :
    wp (request answer) Q w := by
  rw [wp_request, h.failure]
  exact hanswer

/-- A run comes to its candidates. -/
theorem run_ready (h : Ready cfg launch s)
    {Q : Except Abort RekeyResult → Site C → Prop}
    (hrest : ∀ replies crashes,
      Calm { s with world := { s.world with replies := replies }, crashes := crashes } →
      wp (if !cfg.dryRun && decide ((candidates cfg s.nas).length = 0) then silentZero cfg
          else migrate digest cfg launch (candidates cfg s.nas)) Q
        { s with world := { s.world with replies := replies }, crashes := crashes }) :
    wp (run digest cfg launch) Q s := by
  have hallowed : ¬ (!cfg.dryRun && !cfg.iUnderstandIrreversible) = true := by
    rcases h.allowed with h | h <;> simp [h]
  have hhead : s.crashes.head = false := h.calm.lives 0
  have hhead' : s.crashes.tail.head = false := h.calm.lives 1
  have hversioning : ¬ s.versioning ≠ "Enabled" := not_not.mpr h.versioning
  have hdisk : ¬ launch.diskFree < 1024 ^ 3 := Nat.not_lt.mpr h.disk
  unfold run
  rw [if_neg hallowed]
  simp only [checkVersioning, checkDiskUsage, discoverL1Objects, onNas, alive, wp_bind,
    wp_get, wp_set, hhead, Bool.false_eq_true, if_false, wp_pure, wp_within]
  refine request_versioned h.calm.answered ?_
  simp only [if_neg hversioning, if_neg hdisk, if_neg h.channel, wp_pure, wp_bind,
    wp_get, wp_set, hhead', Bool.false_eq_true, if_false, wp_within]
  refine request_versioned (h.calm.answered.drop 1) ?_
  exact hrest _ _ ⟨h.calm.answered.drop 2, fun n => h.calm.lives (n + 2)⟩

variable (digest cfg) in
/-- The view when the batch of a run begins. -/
def Site.begun (s : Site C) : View C :=
  { s.view cfg with
    lines := (registered digest cfg s).map PartitionEntry.line
    file := some ((registered digest cfg s).map PartitionEntry.line) }

/-- **A run with work to do** is the sweep over what can be resumed. -/
theorem run_calmly (h : Ready cfg launch s) (hroomy : Roomy digest cfg s)
    (hwork : cfg.dryRun = true ∨ candidates cfg s.nas ≠ [])
    (hne : ∀ e ∈ registered digest cfg s, e.oldKey ≠ e.newKey) :
    Calmly cfg (run digest cfg launch) s fun _ v =>
      v = View.sweep digest cfg
        ((registered digest cfg s).resumable.map PartitionEntry.line) 0 0
        (s.begun digest cfg) := by
  refine run_ready h fun replies crashes hcalm => ?_
  have hgoes : ¬ (!cfg.dryRun && decide ((candidates cfg s.nas).length = 0)) = true := by
    rcases hwork with h | h <;> simp [h]
  rw [if_neg hgoes]
  simp only [migrate, load, wp_bind, wp_modify, wp_get]
  have hcalm' : Calm { s with
      world := { s.world with replies := replies }
      crashes := crashes
      memory := registered digest cfg s } := ⟨hcalm.answered, hcalm.lives⟩
  refine wp_mono (writeAtomic_calmly _ hcalm' rfl) ?_
  rintro r s₁ ⟨a, rfl, h₁, -, hv₁⟩
  refine batch_calmly h.sigterm ?_ ?_ (fun e he => hne e (List.mem_of_mem_filter he)) s₁ h₁ hv₁
  · rw [Nat.zero_add]
    exact hroomy.batchSize
  · intro n hn
    rw [Nat.zero_add]
    exact hroomy.maxPartitions n hn

/-- **A live run without candidates** changes nothing, and returns if the manifest has a
finished entry. -/
theorem run_idle (h : Ready cfg launch s) (hlive : cfg.dryRun = false)
    (hnone : candidates cfg s.nas = []) :
    wp (run digest cfg launch) (fun r s' => s'.nas = s.nas ∧ s'.manifests = s.manifests ∧
      s'.deletes = s.deletes ∧ ((∃ result, r = .ok result) ↔
        ∃ m, s.manifests.lookup (manifestName cfg) = some m ∧ m.finished ≠ [])) s := by
  refine run_ready h fun replies crashes _ => ?_
  have hstops : (!cfg.dryRun && decide ((candidates cfg s.nas).length = 0)) = true := by
    simp [hlive, hnone]
  rw [if_pos hstops]
  simp only [silentZero, wp_bind, wp_get]
  cases hm : s.manifests.lookup (manifestName cfg) with
  | none => simp
  | some m =>
    by_cases hfinished : m.finished = []
    · have hlength : ¬ 0 < m.finished.length := by simp [hfinished]
      simp only [hlength, if_false, wp_throw]
      refine ⟨trivial, trivial, trivial, (by rintro ⟨_, ⟨⟩⟩), ?_⟩
      rintro ⟨m', hm', hne⟩
      cases hm'
      exact absurd hfinished hne
    · have hlength : 0 < m.finished.length := List.length_pos_iff.mpr hfinished
      simp only [hlength, if_true, wp_pure]
      exact ⟨trivial, trivial, trivial, fun _ => ⟨m, rfl, hfinished⟩, fun _ => ⟨_, rfl⟩⟩

end MctraderData.Migration
