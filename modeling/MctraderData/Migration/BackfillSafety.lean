import MctraderData.Migration.Backfill

/-!
# mctrader-data — what a finished backfill stands for

`put_eq_head_write` ties the two requests of a worker to `NASUploader.put`. What one step
of a worker can do is said once (`workStep_ok`): it touches no object key but its own, and
once its bytes are sent they are in the bucket. The invariant of whole histories
(`Consistent`) follows from that: a row that says verified tells the truth, and every
closed-day file of a run in progress has a row.

The row is keyed by the path and says nothing of the bytes. A file that is rewritten after
its chunk was verified is never looked at again (`backfill_skips_rewritten_file`), so
`backfill_complete` is about histories that are `Careful`.
-/

namespace MctraderData.Backfill

open Lib Eff
open Nas
open Harness (InvariantStatus InvariantHarness ReadOnly basename)
open RetryQueue (PutStatus)

variable {C : Type} [Blob C]

/-! ## uploads in two requests -/

/-- The two requests, one right after the other, are `NASUploader.put`. -/
theorem put_eq_head_write (key : Key) (data : C) :
    put key data (some (Blob.sha256 data)) false = (do
      match ← putHead key data with
      | some r => pure r
      | none => putWrite key data) := by
  have hmatch : ∀ k : Prog C (PutResult C), (fun b => match b with
      | some r => pure r
      | none => k) = fun b : Option (PutResult C) => b.elim k pure := by
    intro k
    funext b
    cases b <;> rfl
  have hput : put key data (some (Blob.sha256 data)) false = tryCatch (headRequest key data >>=
      fun b => b.elim (writeRequest key data) pure) (putHandler key data) := by
    rw [← hmatch]
    rfl
  rw [hput, hmatch, tryCatch_optional]
  rfl

section

variable {w w' : World C} {key : Key} {c : C}

/-- The handlers write nothing; they queue or raise. -/
theorem putHandler_post (h : PutFrame w w' key c) (hq : w'.retryQueue = w.retryQueue) (e : Exn) :
    wp (putHandler key c e) (fun r w'' => PutPost w w'' key c r) w' := by
  unfold putHandler
  split
  · exact queuedResult_post h hq
  · split
    · exact h.raised _
    · exact queuedResult_post h hq
  · exact h.raised _

/-- A HEAD changes nothing; if it ends the upload, the bytes are there. -/
theorem headRequest_post (hT : Truthful w) :
    wp (headRequest key c) (fun r w' => w' = w.next ∧
      ∀ res, r = .ok (some res) → PutPost w w' key c (.ok res)) w := by
  unfold headRequest
  rw [wp_tryCatch, wp_headDecision]
  cases hhead : headOutcome w key (Blob.sha256 c) with
  | ok skip =>
    refine ⟨rfl, fun res hres => ?_⟩
    cases hres
    obtain ⟨rfl, o, ho, hs⟩ := headOutcome_eq_some hhead
    exact .idempotent hT ho hs rfl
  | error e =>
    dsimp only
    split <;> exact ⟨rfl, fun _ h => by cases h⟩

/-- The first request of an upload. -/
theorem putHead_post (hT : Truthful w) (key : Key) (c : C) :
    wp (putHead key c) (fun r w' => PutFrame w w' key c ∧
      ∀ res, r = .ok (some res) → PutPost w w' key c (.ok res)) w := by
  refine wp_catch (headRequest_post hT) ?_ ?_
  · rintro a w' ⟨rfl, hres⟩
    exact ⟨PutFrame.next w key c, hres⟩
  · rintro e w' ⟨rfl, -⟩
    refine wp_seq (putHandler_post (PutFrame.next w key c) rfl e) ?_ ?_
    · intro r w' hpost
      refine ⟨hpost.frame, fun res hres => ?_⟩
      cases hres
      exact hpost
    · exact fun e w' hpost => ⟨hpost.frame, nofun⟩

/-- The second request of an upload. -/
theorem putWrite_post (w : World C) (key : Key) (c : C) :
    wp (putWrite key c) (fun r w' => PutPost w w' key c r) w := by
  have hF := PutFrame.next w key c
  have hraise : ∀ e, wp (putHandler key c e) (fun r w' => PutPost w w' key c r) w.next :=
    putHandler_post hF rfl
  unfold putWrite writeRequest
  rw [wp_tryCatch, wp_bind, wp_clientPutObject]
  cases w.replies.head with
  | ok etag versionId =>
    refine ⟨hF.insert etag versionId, fun _ _ _ => storedAt_insert .., fun res hres => ?_⟩
    cases hres
    exact nofun
  | unreachable landed =>
    cases landed with
    | true => exact putHandler_post (hF.insert "" none) rfl _
    | false => exact hraise _
  | clientError | other => exact hraise _

end

/-! ## the checkpoint -/

section

variable {cp : Checkpoint C} {id id' : String} {status : RowStatus}
  {sha256 : Option (Blob.Digest C)} {failInvariant : Option InvariantStatus} {retryCount : ℕ}

theorem lookup_updateStatus_ne (h : id' ≠ id) :
    (updateStatus cp id status sha256 failInvariant retryCount).lookup id' = cp.lookup id' := by
  unfold updateStatus
  split
  · rfl
  · exact AList.lookup_insert_ne h

theorem mem_updateStatus (h : id' ∈ cp) :
    id' ∈ updateStatus cp id status sha256 failInvariant retryCount := by
  unfold updateStatus
  split
  · exact h
  · exact (AList.mem_insert cp).mpr (Or.inr h)

/-- A row that is updated has the new status. -/
theorem getStatus_updateStatus
    (h : getStatus (updateStatus cp id status sha256 failInvariant retryCount) id = .verified) :
    status = .verified := by
  unfold updateStatus at h
  cases hrow : cp.lookup id with
  | none => simp [hrow, getStatus] at h
  | some row => simpa [hrow, getStatus] using h

/-- A row of a new chunk is pending. -/
theorem getStatus_insertPending {chunk : ChunkSpec} :
    getStatus (insertPending cp chunk) id = getStatus cp id := by
  unfold insertPending
  split
  case isTrue => rfl
  case isFalse hnot =>
    by_cases hid : id = chunk.chunkId
    · subst hid
      simp only [getStatus, AList.lookup_insert, AList.lookup_eq_none.mpr hnot]
    · simp only [getStatus, AList.lookup_insert_ne hid]

theorem getStatus_upsertPending (chunks : List ChunkSpec) :
    getStatus (upsertPending cp chunks) id = getStatus cp id := by
  unfold upsertPending
  induction chunks generalizing cp with
  | nil => rfl
  | cons chunk chunks ih => rw [List.foldl_cons, ih, getStatus_insertPending]

theorem mem_insertPending {chunk : ChunkSpec} :
    id ∈ insertPending cp chunk ↔ id = chunk.chunkId ∨ id ∈ cp := by
  unfold insertPending
  split
  case isTrue h =>
    refine ⟨Or.inr, fun hid => hid.elim (fun heq => heq ▸ h) fun hmem => hmem⟩
  case isFalse => exact AList.mem_insert cp

theorem mem_upsertPending {chunks : List ChunkSpec} :
    id ∈ upsertPending cp chunks ↔ (∃ chunk ∈ chunks, id = chunk.chunkId) ∨ id ∈ cp := by
  unfold upsertPending
  induction chunks generalizing cp with
  | nil => simp
  | cons chunk chunks ih =>
    rw [List.foldl_cons, ih, mem_insertPending]
    simp [or_assoc, or_left_comm]

theorem status_ne_of_countStatus {row : Row C} (hrow : cp.lookup id = some row)
    (h : countStatus cp status = 0) : row.status ≠ status := by
  have hmem : (⟨id, row⟩ : Sigma fun _ : String => Row C) ∈ cp.entries :=
    AList.mem_lookup_iff.mp hrow
  exact of_decide_eq_false (Bool.not_eq_true _ ▸ List.countP_eq_zero.mp h _ hmem)

/-- Nothing but verified rows are left when a run reports success. -/
theorem verified_of_allChunksVerified {total : ℕ} (hmem : id ∈ cp)
    (h : (finalResult total cp).status = .allChunksVerified) : getStatus cp id = .verified := by
  obtain ⟨row, hrow⟩ := exists_lookup hmem
  have hcounts : countStatus cp .blocked = 0 ∧ countStatus cp .quarantined = 0 ∧
      countStatus cp .pending = 0 ∧ countStatus cp .inFlight = 0 := by
    simp only [finalResult] at h
    split_ifs at h
    omega
  obtain ⟨hblocked, hquarantined, hpending, hinFlight⟩ := hcounts
  have hstatus : getStatus cp id = row.status := by
    unfold getStatus
    rw [hrow]
  rw [hstatus]
  cases hcase : row.status with
  | verified => rfl
  | _ => exact absurd hcase (status_ne_of_countStatus hrow (by assumption))

end

/-! ## one step of a worker -/

variable {o : Orchestrator C} {path : Path} {st st' st'' : Store C} {data : C}

/-- What a step of the worker of `path` can change: the object at its key and its row,
which it sets to verified only when the bytes of the file are at the key. -/
structure Touches (o : Orchestrator C) (path : Path) (st st' : Store C) : Prop where
  files : st'.world.files = st.world.files
  truthful : Truthful st'.world
  elsewhere : ∀ k, k ≠ o.objectKey path → st'.world.nas.lookup k = st.world.nas.lookup k
  kept : ∀ c, st.world.files.lookup path = some c → HoldsNas st.world (o.objectKey path) c →
    HoldsNas st'.world (o.objectKey path) c
  rows : ∀ id, id ≠ o.chunkId path → st'.checkpoint.lookup id = st.checkpoint.lookup id
  ids : ∀ id, id ∈ st.checkpoint → id ∈ st'.checkpoint
  verified : getStatus st'.checkpoint (o.chunkId path) = .verified →
    getStatus st.checkpoint (o.chunkId path) = .verified ∨
      ∃ c, st.world.files.lookup path = some c ∧ HoldsNas st'.world (o.objectKey path) c

theorem Touches.refl (hT : Truthful st.world) : Touches o path st st :=
  ⟨rfl, hT, fun _ _ => rfl, fun _ _ h => h, fun _ _ => rfl, fun _ h => h, Or.inl⟩

variable {p : Path}

theorem Touches.lookup (h : Touches o path st st') (hp : st.world.files.lookup p = some data) :
    st'.world.files.lookup p = some data := by
  rw [h.files]
  exact hp

theorem Touches.trans (h : Touches o path st st') (h' : Touches o path st' st'') :
    Touches o path st st'' where
  files := h'.files.trans h.files
  truthful := h'.truthful
  elsewhere k hk := (h'.elsewhere k hk).trans (h.elsewhere k hk)
  kept c hc hold := h'.kept c (h.lookup hc) (h.kept c hc hold)
  rows id hid := (h'.rows id hid).trans (h.rows id hid)
  ids id hid := h'.ids id (h.ids id hid)
  verified hv := by
    obtain hv' | ⟨c, hc, hold⟩ := h'.verified hv
    · obtain hv'' | ⟨c, hc, hold⟩ := h.verified hv'
      · exact Or.inl hv''
      · exact Or.inr ⟨c, hc, h'.kept c (h.lookup hc) hold⟩
    · exact Or.inr ⟨c, h.files ▸ hc, hold⟩

variable {w : World C}

/-- An upload of the file's bytes. -/
theorem Touches.of_put (hT : Truthful st.world) (hdata : st.world.files.lookup path = some data)
    (h : PutFrame st.world w (o.objectKey path) data) :
    Touches o path st { st with world := w } where
  files := h.files
  truthful := h.truthful hT
  elsewhere := h.elsewhere
  kept c hc hold := by
    cases hdata.symm.trans hc
    exact h.holds hold
  rows _ _ := rfl
  ids _ hid := hid
  verified := Or.inl

/-- A check of the harness. -/
theorem Touches.of_readOnly (hT : Truthful st.world) (h : SameButReplies st.world w) :
    Touches o path st { st with world := w } := by
  obtain ⟨n, rfl⟩ := h
  exact ⟨rfl, hT, fun _ _ => rfl, fun _ _ hold => hold, fun _ _ => rfl, fun _ hid => hid, Or.inl⟩

/-- An update of the chunk's row. -/
theorem Touches.record {status : RowStatus} {sha256 : Option (Blob.Digest C)}
    {failInvariant : Option InvariantStatus} {retryCount : ℕ} (hT : Truthful st.world)
    (h : status = .verified → ∃ c, st.world.files.lookup path = some c ∧
      HoldsNas st.world (o.objectKey path) c) :
    Touches o path st (st.record (o.chunkId path) status sha256 failInvariant retryCount) where
  files := rfl
  truthful := hT
  elsewhere _ _ := rfl
  kept _ _ hold := hold
  rows _ hid := lookup_updateStatus_ne hid
  ids _ hid := mem_updateStatus hid
  verified hv := Or.inr (h (getStatus_updateStatus hv))

/-- What is known at each point of `_process_chunk`. -/
def PhaseOk (o : Orchestrator C) (st : Store C) (path : Path) : Phase C → Prop
  | .sending data | .writing data => st.world.files.lookup path = some data
  | .checking data _ =>
    st.world.files.lookup path = some data ∧ HoldsNas st.world (o.objectKey path) data
  | _ => True

/-- A step and the point it leads to. -/
def StepOk (o : Orchestrator C) (path : Path) (st : Store C) (next : Phase C × Store C) : Prop :=
  Touches o path st next.2 ∧ PhaseOk o next.2 path next.1

theorem StepOk.of_touches {next : Phase C × Store C} (h : Touches o path st st')
    (h' : StepOk o path st' next) : StepOk o path st next :=
  ⟨h.trans h'.1, h'.2⟩

theorem afterPut_ok {r : PutResult C} (hT : Truthful st.world)
    (hdata : st.world.files.lookup path = some data)
    (h : PutPost st.world w (o.objectKey path) data (.ok r)) :
    StepOk o path st
      (Orchestrator.afterPut (o.buildChunkSpec path) data r { st with world := w }) := by
  have hput := Touches.of_put (o := o) hT hdata h.frame
  have hchecking : r.status = .uploaded ∨ r.status = .skippedIdempotent →
      StepOk o path st (.checking data 0, { st with world := w }) := by
    intro hsent
    exact ⟨hput, hput.lookup hdata, (h.committed r rfl hsent).holds⟩
  unfold Orchestrator.afterPut
  cases hstatus : r.status with
  | uploaded => exact hchecking (Or.inl hstatus)
  | skippedIdempotent => exact hchecking (Or.inr hstatus)
  | skippedEtagOverwrite => exact absurd hstatus (h.statuses r rfl)
  | queued => exact ⟨hput, trivial⟩
  | hardFloorBlocked =>
    exact StepOk.of_touches hput ⟨Touches.record hput.truthful nofun, trivial⟩

theorem afterVerify_ok (attempt : ℕ) (status : InvariantStatus) (hT : Truthful st.world)
    (hdata : st.world.files.lookup path = some data)
    (hheld : HoldsNas st.world (o.objectKey path) data) :
    StepOk o path st (o.afterVerify (o.buildChunkSpec path) data attempt status st) := by
  unfold Orchestrator.afterVerify
  split
  · exact ⟨Touches.record hT fun _ => ⟨data, hdata, hheld⟩, trivial⟩
  · split
    · exact ⟨Touches.refl hT, hdata, hheld⟩
    · exact ⟨Touches.record hT nofun, trivial⟩

/-- **One step of a worker** changes its own object and its own row only. -/
theorem workStep_ok (manualGate : Bool) {phase : Phase C} (hT : Truthful st.world)
    (hphase : PhaseOk o st path phase) :
    StepOk o path st (o.workStep manualGate (o.buildChunkSpec path) phase st) := by
  cases phase with
  | waiting =>
    simp only [Orchestrator.workStep]
    split
    · exact ⟨Touches.refl hT, trivial⟩
    · split
      · exact ⟨Touches.refl hT, trivial⟩
      · have hrecord : Touches o path st (st.record (o.chunkId path) .inFlight none none 0) :=
          Touches.record hT nofun
        split
        · exact ⟨hrecord, trivial⟩
        case h_2 data hdata => exact ⟨hrecord, hdata⟩
  | sending data =>
    have hpost := putHead_post hT (o.objectKey path) data
    unfold wp at hpost
    simp only [Orchestrator.workStep]
    split
    case h_1 r w hr =>
      rw [show putHead (o.objectKey path) data st.world = _ from hr] at hpost
      exact afterPut_ok hT hphase (hpost.2 r rfl)
    case h_2 w hr =>
      rw [show putHead (o.objectKey path) data st.world = _ from hr] at hpost
      -- the HEAD found nothing, and the file is still to be written
      have hput := Touches.of_put hT hphase hpost.1
      exact ⟨hput, hput.lookup hphase⟩
    case h_3 e w hr =>
      rw [show putHead (o.objectKey path) data st.world = _ from hr] at hpost
      exact ⟨Touches.of_put hT hphase hpost.1, trivial⟩
  | writing data =>
    have hpost := putWrite_post st.world (o.objectKey path) data
    unfold wp at hpost
    simp only [Orchestrator.workStep]
    split
    case h_1 r w hr =>
      rw [show putWrite (o.objectKey path) data st.world = _ from hr] at hpost
      exact afterPut_ok hT hphase hpost
    case h_2 e w hr =>
      rw [show putWrite (o.objectKey path) data st.world = _ from hr] at hpost
      exact ⟨Touches.of_put hT hphase hpost.frame, trivial⟩
  | checking data attempt =>
    obtain ⟨hdata, hheld⟩ := hphase
    have hread : ReadOnly (o.verifyChunk (o.buildChunkSpec path) attempt) := by
      unfold Orchestrator.verifyChunk
      split <;> exact o.verify_readOnly _ _ _ _
    have hsame := hread st.world
    unfold Eff.after at hsame
    simp only [Orchestrator.workStep]
    split
    case h_1 status w hr =>
      rw [hr] at hsame
      have hverify : Touches o path st { st with world := w } := Touches.of_readOnly hT hsame
      exact StepOk.of_touches hverify (afterVerify_ok attempt status hverify.truthful
        (hverify.lookup hdata) (hverify.kept data hdata hheld))
    case h_2 e w hr =>
      rw [hr] at hsame
      exact ⟨Touches.of_readOnly hT hsame, trivial⟩
  | done | cancelled => exact ⟨Touches.refl hT, trivial⟩

/-! ## the site -/

/-- A source file of the tree with its content. -/
def SourceFile (o : Orchestrator C) (w : World C) (path : Path) (c : C) : Prop :=
  o.isSource path = true ∧ w.files.lookup path = some c

/-- Every closed-day file has its bytes at its own object key. -/
def Complete (o : Orchestrator C) (w : World C) (today : Int) : Prop :=
  ∀ path c, o.isClosedDay today path = true → w.files.lookup path = some c →
    HoldsNas w (o.objectKey path) c

/-- No two source files share a chunk id, and no two share an object key. -/
structure Apart (o : Orchestrator C) (w : World C) : Prop where
  chunkId : ∀ p q c d, SourceFile o w p c → SourceFile o w q d → o.chunkId p = o.chunkId q → p = q
  objectKey : ∀ p q c d, SourceFile o w p c → SourceFile o w q d →
    o.objectKey p = o.objectKey q → p = q

/-- The condition on a history: a source file is written only while its chunk is not
recorded as verified (or with the bytes it has), and a run starts on source files with
chunk ids and object keys of their own, over a bucket whose sha256 metadata are true. -/
def Careful (o : Orchestrator C) (s : Site C) : Action C → Prop
  | .change path (some c) => s.store.world.files.lookup path = some c ∨
      getStatus s.store.checkpoint (o.chunkId path) ≠ .verified
  | .start _ _ => Truthful s.store.world ∧ Apart o s.store.world
  | _ => True

/-- A row that says verified tells the truth about its file. -/
def Recorded (o : Orchestrator C) (st : Store C) : Prop :=
  ∀ path c, SourceFile o st.world path c →
    getStatus st.checkpoint (o.chunkId path) = .verified → HoldsNas st.world (o.objectKey path) c

/-- A worker on a source file of the tree. -/
def WorkerOk (o : Orchestrator C) (st : Store C) (wk : Worker C) : Prop :=
  ∃ path c, wk.spec = o.buildChunkSpec path ∧ SourceFile o st.world path c ∧
    PhaseOk o st path wk.phase

/-- What holds while a run is in progress. -/
structure Running (o : Orchestrator C) (st : Store C) (job : Job C) : Prop where
  truthful : Truthful st.world
  apart : Apart o st.world
  rows : ∀ path c, o.isClosedDay job.today path = true → st.world.files.lookup path = some c →
    o.chunkId path ∈ st.checkpoint
  workers : ∀ wk ∈ job.workers, WorkerOk o st wk

structure Consistent (o : Orchestrator C) (s : Site C) : Prop where
  recorded : Recorded o s.store
  running : ∀ job, s.job = some job → Running o s.store job
  returned : ∀ r today, s.returned = some (r, today) → r.status = .allChunksVerified →
    Complete o s.store.world today

variable {today : Int}

theorem isSource_of_isClosedDay (h : o.isClosedDay today path = true) : o.isSource path = true := by
  unfold Orchestrator.isClosedDay at h
  rw [Bool.and_eq_true] at h
  exact h.1

theorem mem_discoverPartitions :
    path ∈ o.discoverPartitions today w ↔
      o.isClosedDay today path = true ∧ ∃ c, w.files.lookup path = some c := by
  unfold Orchestrator.discoverPartitions
  rw [List.mem_filter, ← AList.mem_keys, ← AList.lookup_isSome, Option.isSome_iff_exists]
  exact and_comm

theorem SourceFile.of_touches {c : C} (h : Touches o path st st') :
    SourceFile o st'.world p c ↔ SourceFile o st.world p c := by
  unfold SourceFile
  rw [h.files]

theorem Apart.of_touches (h : Touches o path st st') (ha : Apart o st.world) :
    Apart o st'.world where
  chunkId p q c d hp hq := ha.chunkId p q c d ((SourceFile.of_touches h).mp hp)
    ((SourceFile.of_touches h).mp hq)
  objectKey p q c d hp hq := ha.objectKey p q c d ((SourceFile.of_touches h).mp hp)
    ((SourceFile.of_touches h).mp hq)

section

variable {c : C} (hown : SourceFile o st.world path c) (ha : Apart o st.world)
  (h : Touches o path st st')

include hown ha h

/-- What a worker does to its own object leaves the files of all workers stored. -/
theorem Touches.holds {d : C} (hp : SourceFile o st.world p d)
    (hold : HoldsNas st.world (o.objectKey p) d) : HoldsNas st'.world (o.objectKey p) d := by
  by_cases hkey : o.objectKey p = o.objectKey path
  · have heq := ha.objectKey p path d c hp hown hkey
    subst heq
    exact h.kept d hp.2 hold
  · obtain ⟨obj, hobj, hbody⟩ := hold
    exact ⟨obj, (h.elsewhere _ hkey).trans hobj, hbody⟩

theorem Touches.phaseOk {d : C} {phase : Phase C} (hp : SourceFile o st.world p d)
    (hphase : PhaseOk o st p phase) : PhaseOk o st' p phase := by
  cases phase with
  | sending | writing => exact h.lookup hphase
  | checking data attempt =>
    obtain ⟨hdata, hheld⟩ := hphase
    exact ⟨h.lookup hdata, h.holds hown ha ⟨hp.1, hdata⟩ hheld⟩
  | waiting | done | cancelled => trivial

theorem Touches.workerOk {wk : Worker C} (hwk : WorkerOk o st wk) : WorkerOk o st' wk := by
  obtain ⟨p, d, hspec, hp, hphase⟩ := hwk
  exact ⟨p, d, hspec, (SourceFile.of_touches h).mpr hp, h.phaseOk hown ha hp hphase⟩

theorem Touches.recorded (hrec : Recorded o st) : Recorded o st' := by
  intro p d hp hv
  have hp' := (SourceFile.of_touches h).mp hp
  by_cases hid : o.chunkId p = o.chunkId path
  · have heq := ha.chunkId p path d c hp' hown hid
    subst heq
    obtain hold | ⟨c', hc', hheld⟩ := h.verified hv
    · exact h.kept d hp'.2 (hrec p d hp' hold)
    · cases hp'.2.symm.trans hc'
      exact hheld
  · have hsame : getStatus st'.checkpoint (o.chunkId p) =
        getStatus st.checkpoint (o.chunkId p) := by
      unfold getStatus
      rw [h.rows _ hid]
    exact h.holds hown ha hp' (hrec p d hp' (hsame ▸ hv))

end

/-! ## one action -/

variable {s s' : Site C}

theorem Recorded.change {content : Option C} (hrec : Recorded o st)
    (hcareful : ∀ c, content = some c → st.world.files.lookup path = some c ∨
      getStatus st.checkpoint (o.chunkId path) ≠ .verified) :
    Recorded o { st with world := changeFile st.world path content } := by
  rintro p d ⟨hsource, hd⟩ hv
  cases content with
  | none => exact hrec p d ⟨hsource, (lookup_erase_eq_some.mp hd).2⟩ hv
  | some c =>
    rcases lookup_insert_eq_some.mp hd with ⟨rfl, rfl⟩ | ⟨-, hd⟩
    · obtain hsame | hnot := hcareful c rfl
      · exact hrec p c ⟨hsource, hsame⟩ hv
      · exact absurd hv hnot
    · exact hrec p d ⟨hsource, hd⟩ hv

theorem Consistent.submit (hrec : Recorded o st) (hT : Truthful st.world) (ha : Apart o st.world) :
    Consistent o (o.submit today st) where
  recorded path c hp hv := hrec path c hp ((getStatus_upsertPending _).symm.trans hv)
  running job hjob := by
    cases hjob
    refine ⟨hT, ha, fun path c hclosed hc => ?_, fun wk hwk => ?_⟩
    · exact mem_upsertPending.mpr (Or.inl ⟨o.buildChunkSpec path,
        List.mem_map_of_mem (mem_discoverPartitions.mpr ⟨hclosed, c, hc⟩), rfl⟩)
    · obtain ⟨chunk, hchunk, rfl⟩ := List.mem_map.mp hwk
      obtain ⟨path, hpath, rfl⟩ := List.mem_map.mp (List.mem_filter.mp hchunk).1
      obtain ⟨hclosed, c, hc⟩ := mem_discoverPartitions.mp hpath
      exact ⟨path, c, rfl, ⟨isSource_of_isClosedDay hclosed, hc⟩, trivial⟩
  returned := nofun

theorem Running.work {job : Job C} {wk : Worker C} {i : ℕ} (manualGate : Bool)
    (hrec : Recorded o st) (h : Running o st job) (hwk : job.workers[i]? = some wk) :
    Recorded o (o.workStep manualGate wk.spec wk.phase st).2 ∧
      Running o (o.workStep manualGate wk.spec wk.phase st).2 { job with
        workers :=
          job.workers.set i ⟨wk.spec, (o.workStep manualGate wk.spec wk.phase st).1⟩ } := by
  obtain ⟨path, c, hspec, hown, hphase⟩ := h.workers wk (List.mem_of_getElem? hwk)
  rw [hspec]
  obtain ⟨htouch, hphase'⟩ := workStep_ok manualGate h.truthful hphase
  refine ⟨htouch.recorded hown h.apart hrec, htouch.truthful, h.apart.of_touches htouch, ?_, ?_⟩
  · intro p d hclosed hd
    exact htouch.ids _ (h.rows p d hclosed (htouch.files ▸ hd))
  · intro wk' hwk'
    obtain hold | rfl := List.mem_or_eq_of_mem_set hwk'
    · exact htouch.workerOk hown h.apart (h.workers wk' hold)
    · exact ⟨path, c, rfl, (SourceFile.of_touches htouch).mpr hown, hphase'⟩

theorem WorkerOk.cancel {wk : Worker C} (h : WorkerOk o st wk) : WorkerOk o st wk.cancel := by
  unfold Worker.cancel
  split
  · obtain ⟨path, c, hspec, hown, -⟩ := h
    exact ⟨path, c, hspec, hown, trivial⟩
  · exact h

/-- A run that reports success has a verified row for each closed-day file. -/
theorem Running.complete {job : Job C} (hrec : Recorded o st) (h : Running o st job)
    (hall : (finalResult job.totalChunks st.checkpoint).status = .allChunksVerified) :
    Complete o st.world job.today := by
  intro path c hclosed hc
  have hv := verified_of_allChunksVerified (h.rows path c hclosed hc) hall
  exact hrec path c ⟨isSource_of_isClosedDay hclosed, hc⟩ hv

theorem Consistent.step {a : Action C} (h : Consistent o s) (hcareful : Careful o s a)
    (hstep : o.step s a = some s') : Consistent o s' := by
  cases a <;> simp only [Orchestrator.step] at hstep
  case change path content =>
    split at hstep
    · cases hstep
    · cases hstep
      refine ⟨h.recorded.change fun c hc => ?_, nofun, nofun⟩
      subst hc
      exact hcareful
  case start today manualGate =>
    split at hstep
    · cases hstep
    · split at hstep
      · cases hstep
        refine ⟨h.recorded, nofun, fun r day hr hall => ?_⟩
        cases hr
        cases hall
      · cases hstep
        exact Consistent.submit h.recorded hcareful.1 hcareful.2
  case work i manualGate =>
    split at hstep
    · cases hstep
    case h_2 job hjob =>
      split at hstep
      · cases hstep
      case h_2 wk hwk =>
        cases hstep
        obtain ⟨hrec, hrun⟩ := (h.running job hjob).work manualGate h.recorded hwk
        refine ⟨hrec, fun job' hjob' => ?_, nofun⟩
        cases hjob'
        exact hrun
  case cancel =>
    split at hstep
    · cases hstep
    case h_2 job hjob =>
      split at hstep
      · cases hstep
        refine ⟨h.recorded, fun job' hjob' => ?_, h.returned⟩
        cases hjob'
        have hrun := h.running job hjob
        refine ⟨hrun.truthful, hrun.apart, hrun.rows, fun wk hwk => ?_⟩
        obtain ⟨wk', hwk', rfl⟩ := List.mem_map.mp hwk
        exact (hrun.workers wk' hwk').cancel
      · cases hstep
  case finish =>
    split at hstep
    · cases hstep
    case h_2 job hjob =>
      split at hstep
      · cases hstep
        refine ⟨h.recorded, nofun, fun r today hr hall => ?_⟩
        cases hr
        exact (h.running job hjob).complete h.recorded hall
      · cases hstep
  case crash =>
    cases hstep
    exact ⟨h.recorded, nofun, nofun⟩

/-- **Backfill completeness.** In a careful history, whatever the NAS answers, however the
workers interleave and wherever the process dies, a run that returns `all_chunks_verified`
leaves the bytes of every closed-day file at its own object key. -/
theorem backfill_complete (hs : o.machine.Reaches (Careful o) s) {r : BackfillResult}
    {today : Int} (hreturned : s.returned = some (r, today))
    (hall : r.status = .allChunksVerified) : Complete o s.store.world today := by
  have hconsistent : Consistent o s := by
    refine hs.invariant ?_ fun s a s' h hcareful hstep => h.step hcareful hstep
    rintro - ⟨w, rfl⟩
    exact ⟨fun path c hp hv => absurd hv nofun, nofun, nofun⟩
  exact hconsistent.returned r today hreturned hall

/-! ## one day -/

/-- A backfill of tick partitions whose chunk ids are the file names. -/
def tickBackfill : Orchestrator String :=
  .ofHarness Harness.tickHarness "transaction" "L2"
    ["market", "transaction", "schema_version=tick.v1", "tier=L2"]
    (fun _ _ path => basename path) fun _ => some 0

def dayFile : Path :=
  ["market", "transaction", "schema_version=tick.v1", "tier=L2", "exchange=upbit", "symbol=BTC",
    "date=2026-01-01", "node=A", "a.parquet"]

/-- One file of a closed day, an empty bucket, and a NAS that answers everything but the
fourth request, the probe of the ambiguity check. -/
def oneDay : Site String where
  store := {
    world := {
      files := .singleton dayFile "ticks"
      dirs := []
      nas := ∅
      retryQueue := none
      replies := .cons (.ok "" none) (.cons (.ok "" none) (.cons (.ok "" none)
        (.cons .other (.const (.ok "" none)))))
      unlinkFaults := .const false }
    checkpoint := ∅ }

/-- The four steps of the one worker, and the end of the run. -/
def workOff : List (Action String) := List.replicate 4 (.work 0 false) ++ [.finish]

theorem careful_workOff : ∀ a ∈ workOff, ∀ s, Careful tickBackfill s a := by
  intro a ha s
  obtain ha | ha := List.mem_append.mp ha
  · rw [List.eq_of_mem_replicate ha]
    trivial
  · rw [List.mem_singleton.mp ha]
    trivial

theorem careful_oneDay : Careful tickBackfill oneDay (.start 1 false) := by
  have honly : ∀ p c, SourceFile tickBackfill oneDay.store.world p c → p = dayFile :=
    fun p c h => (lookup_singleton_eq_some h.2).1
  exact ⟨nofun, fun p q c d hp hq _ => (honly p c hp).trans (honly q d hq).symm,
    fun p q c d hp hq _ => (honly p c hp).trans (honly q d hq).symm⟩

/-- The run over the day, from its start to its result. -/
def dayDone : Option (Site String) :=
  (tickBackfill.machine.step oneDay (.start 1 false)).bind fun s =>
    tickBackfill.machine.run s workOff

theorem dayDone_eq : dayDone.map (fun s => (s.returned.map fun r => (r.1.status, r.2),
    s.store.world.files.lookup dayFile)) =
    some (some (.allChunksVerified, 1), some "ticks") := by
  decide +kernel

theorem reaches_dayDone {s : Site String} (h : dayDone = some s) :
    tickBackfill.machine.Reaches (Careful tickBackfill) s := by
  obtain ⟨s', hstart, hrun⟩ := Option.bind_eq_some_iff.mp h
  exact Machine.reaches_of_guarded_run (.step (.init ⟨_, rfl⟩) careful_oneDay hstart)
    careful_workOff hrun

theorem backfill_stores_one_day : ∃ s, dayDone = some s ∧
    s.returned.map (·.1.status) = some .allChunksVerified ∧
    HoldsNas s.store.world (tickBackfill.objectKey dayFile) "ticks" := by
  obtain ⟨s, hs, heq⟩ := Option.map_eq_some_iff.mp dayDone_eq
  obtain ⟨hreturned, hfile⟩ := Prod.mk.inj heq
  obtain ⟨⟨r, today⟩, hr, heq⟩ := Option.map_eq_some_iff.mp hreturned
  obtain ⟨hall, htoday⟩ := Prod.mk.inj heq
  have hstatus : s.returned.map (·.1.status) = some .allChunksVerified := by
    rw [hr]
    exact congrArg some hall
  refine ⟨s, hs, hstatus, ?_⟩
  refine backfill_complete (reaches_dayDone hs) hr hall dayFile "ticks" ?_ hfile
  rw [show today = 1 from htoday]
  decide +kernel

/-- The file is rewritten after its chunk was verified: the next run returns
`all_chunks_verified`, and the NAS has the old bytes. -/
theorem backfill_skips_rewritten_file : ∃ s,
    tickBackfill.machine.run oneDay ((.start 1 false :: workOff) ++
      [.change dayFile (some "more ticks"), .start 1 false, .finish]) = some s ∧
    s.returned.map (fun r => (r.1.status, r.2)) = some (.allChunksVerified, 1) ∧
    ¬ Complete tickBackfill s.store.world 1 := by
  have hrun : (tickBackfill.machine.run oneDay ((.start 1 false :: workOff) ++
      [.change dayFile (some "more ticks"), .start 1 false, .finish])).map (fun s =>
        (s.returned.map fun r => (r.1.status, r.2), s.store.world.files.lookup dayFile,
          (s.store.world.nas.lookup (tickBackfill.objectKey dayFile)).map Obj.body)) =
      some (some (.allChunksVerified, 1), some "more ticks", some "ticks") := by
    decide +kernel
  obtain ⟨s, hs, heq⟩ := Option.map_eq_some_iff.mp hrun
  obtain ⟨hreturned, heq⟩ := Prod.mk.inj heq
  obtain ⟨hfile, hnas⟩ := Prod.mk.inj heq
  refine ⟨s, hs, hreturned, fun hcomplete => ?_⟩
  obtain ⟨obj, hobj, hbody⟩ := hcomplete dayFile "more ticks" (by decide +kernel) hfile
  rw [hobj, Option.map_some, hbody] at hnas
  exact absurd hnas (by decide)

end MctraderData.Backfill
