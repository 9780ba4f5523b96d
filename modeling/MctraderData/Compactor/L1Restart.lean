import MctraderData.Compactor.Replication
import MctraderData.Nas.Frame

/-!
# mctrader-data — crashes and re-runs of the L1 compaction

`compact_segment` has several effects that last: the parquet file, its upload, the
deletion of the local copy, the lineage file and the marker. A crash keeps those already
made and loses everything else, and the next run starts from the segment again. Here
`compact_segment` is cut into stages with one such effect each, and a crash may come
between any two of them.

## Results

* `run_compactSegment` — a run that is not interrupted is `compact_segment`.
* `restart_holds`      — after the first run that returned, the L1 object is the one of
  the segment, whatever runs and crashes come before and after.
-/

namespace MctraderData.Compactor

open Lib Eff
open Nas
open Wal
open RetryQueue (PutStatus)

/-! ## one segment -/

section

variable {W R : Type} [Timed R]

/-- A sealed segment that converts: the name of its L1 file, its records, and the table
they convert to. -/
structure L1Source (env : Env R) (codec : Codec W R) where
  sealedPath : Path
  target : L1Target
  records : List W
  table : Table R
  named : l1Target env sealedPath = .ok target
  converts : l1Table env codec target records = .ok table

namespace L1Source

variable {env : Env R} {codec : Codec W R} (src : L1Source env codec)

/-- The L1 file, and the key of its object. -/
def path : Path := src.target.path

/-- Its content. -/
def content : Content W R := .parquet src.table

/-- A run on the segment, with the table it still has to write. -/
def job (table : Option (Table R)) : Job R := ⟨src.sealedPath, src.target, table⟩

theorem sealedPath_cons : ∃ dir rest, src.sealedPath = "wal" :: dir :: rest := by
  obtain ⟨m, -, -, hm, -⟩ := l1Target_ok src.named
  unfold parseSegmentMeta at hm
  split at hm
  next heq => exact ⟨_, _, heq⟩
  next => cases hm

theorem sealedPath_head : src.sealedPath.head? = some "wal" := by
  obtain ⟨dir, rest, heq⟩ := src.sealedPath_cons
  rw [heq]
  rfl

theorem marker_head : (compactedPath src.sealedPath).head? = some "wal" := by
  obtain ⟨dir, rest, heq⟩ := src.sealedPath_cons
  rw [heq]
  rfl

theorem ne_l1File {path : Path} (h : path.head? = some "wal") (file : String) :
    path ≠ src.target.dir ++ [file] := by
  intro heq
  rw [heq, l1Path_head src.named] at h
  exact absurd h (by decide)

theorem sealedPath_ne_path : src.sealedPath ≠ src.path := src.ne_l1File src.sealedPath_head _

/-- Not the segment and not its L1 file. -/
def Foreign (path : Path) : Prop := path ≠ src.sealedPath ∧ path ≠ src.path

instance (path : Path) : Decidable (src.Foreign path) := inferInstanceAs (Decidable (_ ∧ _))

theorem foreign_lineage : src.Foreign (lineagePath src.target) :=
  ⟨(src.ne_l1File src.sealedPath_head _).symm, lineagePath_ne src.named⟩

theorem foreign_marker : src.Foreign (compactedPath src.sealedPath) := by
  refine ⟨fun heq => ?_, src.ne_l1File src.marker_head _⟩
  have hlast := congrArg (fun p : Path => (p.getLastD "").toList.length) heq
  simp [compactedPath, withSuffix] at hlast

end L1Source

end

/-! ## stages -/

/-- What a run does next, with the local variables it still needs. -/
inductive L1Stage (W R : Type) [Blob (Content W R)] where
  | write (job : Job R)
  | head (job : Job R)
  | upload (job : Job R) (key : Key) (sha256 : Blob.Digest (Content W R))
  | promote (job : Job R) (key : Key) (sha256 : Blob.Digest (Content W R)) (status : PutStatus)
  | lineage (job : Job R)
  | mark (job : Job R)

variable {W R : Type} [Blob (Content W R)]

/-- A part of `put_l1`, under the handler of `_put_l1_nas`: after an exception the run goes
on with the lineage file. -/
def underHook (job : Job R) (part : Prog (Content W R) (L1Stage W R)) :
    Prog (Content W R) (Option (L1Stage W R)) :=
  tryCatch (do
    let next ← part
    pure (some next)) fun _ => pure (some (.lineage job))

/-- One stage, and the stage after it; `none` is the return of `compact_segment`. -/
def runStage (codec : Codec W R) (dual : Bool) :
    L1Stage W R → Prog (Content W R) (Option (L1Stage W R))
  | .write job => do
    writeSegment job
    pure (some (if dual then .head job else .lineage job))
  | .head job => underHook job do
    match buildNasKey job.target.path (some "L1") with
    | none => throw .valueError
    | some key =>
      let c ← readFile job.target.path
      match ← streamingHead key (Blob.sha256 c) with
      | some r => pure (.promote job key (Blob.sha256 c) r.status)
      | none => pure (.upload job key (Blob.sha256 c))
  | .upload job key sha256 => underHook job do
    let r ← streamingUpload job.target.path key sha256
    pure (.promote job key sha256 r.status)
  | .promote job key sha256 status => underHook job do
    let _ ← finishL1 job.target.path key sha256 status
    pure (.lineage job)
  | .lineage job => do
    writeFile (lineagePath job.target) (.text (codec.lineage job.sealedPath))
    pure (some (.mark job))
  | .mark job => do
    touch (compactedPath job.sealedPath)
    pure none

/-- At most `n` stages in a row. -/
def runStages (codec : Codec W R) (dual : Bool) : Nat → L1Stage W R → Prog (Content W R) Unit
  | 0, _ => pure ()
  | n + 1, stage => do
    match ← runStage codec dual stage with
    | none => pure ()
    | some next => runStages codec dual n next

/-! ## the stages in a row -/

section

variable {codec : Codec W R} {dual : Bool} {job : Job R} {w : World (Content W R)}

theorem wp_underHook {part : Prog (Content W R) (L1Stage W R)}
    {Q : Except Exn (Option (L1Stage W R)) → World (Content W R) → Prop} :
    wp (underHook job part) Q w ↔
      wp part (fun r w' => match r with
        | .ok next => Q (.ok (some next)) w'
        | .error _ => Q (.ok (some (.lineage job))) w') w := by
  rw [underHook, wp_tryCatch, wp_bind]
  refine wp_congr fun r w' => ?_
  cases r <;> rfl

variable {Q : Except Exn Unit → World (Content W R) → Prop}

theorem wp_runStages_succ {n : Nat} {stage : L1Stage W R} :
    wp (runStages codec dual (n + 1) stage) Q w ↔
      wp (runStage codec dual stage) (fun r w' => match r with
        | .ok none => Q (.ok ()) w'
        | .ok (some next) => wp (runStages codec dual n next) Q w'
        | .error e => Q (.error e) w') w := by
  rw [runStages, wp_bind]
  refine wp_congr fun r w' => ?_
  rcases r with _ | _ | _ <;> rfl

/-- The lineage file and the marker. -/
def finishJob (codec : Codec W R) (job : Job R) : Prog (Content W R) Unit := do
  writeFile (lineagePath job.target) (.text (codec.lineage job.sealedPath))
  touch (compactedPath job.sealedPath)

theorem runStages_lineage (n : Nat) :
    runStages codec dual (n + 2) (.lineage job) = finishJob codec job := by
  refine eq_of_wp fun Q w => ?_
  rw [wp_runStages_succ, runStage, finishJob, wp_bind, wp_bind]
  refine wp_congr fun r w' => ?_
  cases r with
  | error e => rfl
  | ok u =>
    simp only [wp_pure]
    rw [wp_runStages_succ, runStage, wp_bind]
    refine wp_congr fun r w' => ?_
    cases r <;> rfl

variable {α : Type}

/-- A part of the hook under its handler, and then the end of the run. -/
def hooked (codec : Codec W R) (job : Job R) (part : Prog (Content W R) α) :
    Prog (Content W R) Unit := do
  tryCatch (do let _ ← part) fun _ => pure ()
  finishJob codec job

theorem wp_hooked {part : Prog (Content W R) α} :
    wp (hooked codec job part) Q w ↔
      wp part (fun _ w' => wp (finishJob codec job) Q w') w := by
  rw [hooked, wp_bind, wp_tryCatch, wp_bind]
  refine wp_congr fun r w' => ?_
  cases r <;> rfl

theorem runStages_promote (n : Nat) (key : Key) (sha256 : Blob.Digest (Content W R))
    (status : PutStatus) :
    runStages codec dual (n + 3) (.promote job key sha256 status) =
      hooked codec job (finishL1 job.target.path key sha256 status) := by
  refine eq_of_wp fun Q w => ?_
  rw [wp_runStages_succ, runStage, wp_underHook, wp_hooked, wp_bind]
  refine wp_congr fun r w' => ?_
  cases r <;> simp only [wp_pure, runStages_lineage]

theorem runStages_upload (n : Nat) (key : Key) (sha256 : Blob.Digest (Content W R)) :
    runStages codec dual (n + 4) (.upload job key sha256) =
      hooked codec job (do
        let r ← streamingUpload job.target.path key sha256
        finishL1 job.target.path key sha256 r.status) := by
  refine eq_of_wp fun Q w => ?_
  rw [wp_runStages_succ, runStage, wp_underHook, wp_hooked, wp_bind, wp_bind]
  refine wp_congr fun r w' => ?_
  cases r with
  | error e => simp only [runStages_lineage]
  | ok r => simp only [wp_pure, runStages_promote, wp_hooked]

/-- The stages of the hook are the hook. -/
theorem runStages_head (n : Nat) :
    runStages codec dual (n + 5) (.head job) = (do
      putL1Nas job.target.path
      finishJob codec job) := by
  change _ = hooked codec job (putL1 job.target.path)
  refine eq_of_wp fun Q w => ?_
  rw [wp_runStages_succ, runStage, wp_underHook, wp_hooked, putL1]
  cases buildNasKey job.target.path (some "L1") with
  | none => simp only [wp_throw, runStages_lineage]
  | some key =>
    simp only [wp_bind, putStreaming]
    refine wp_congr fun r w' => ?_
    cases r with
    | error e => simp only [runStages_lineage]
    | ok c =>
      refine wp_congr fun r w' => ?_
      rcases r with e | (_ | r)
      · simp only [runStages_lineage]
      · simp only [wp_pure, runStages_upload, wp_hooked, wp_bind]
        refine wp_congr fun r w' => ?_
        cases r with
        | error e => rfl
        | ok r => exact wp_congr fun r _ => by cases r <;> rfl
      · simp only [wp_pure, runStages_promote, wp_hooked]
        exact wp_congr fun r _ => by cases r <;> rfl

end

variable [Timed R] (env : Env R) (codec : Codec W R) (dual : Bool) (sealedPath : Path)

/-- `compact_segment` is its stages in a row: six of them at most. -/
theorem compactSegment_eq_stages :
    compactSegment env codec dual sealedPath = (do
      let job ← readSegment env codec sealedPath
      runStages codec dual 6 (.write job)
      pure job.target.path : Prog (Content W R) Path) := by
  have hmark : ∀ job : Job R, markSegment codec job = (do
      finishJob codec job
      pure job.target.path) := fun job => eq_of_wp fun Q w => by
    simp only [markSegment, finishJob, wp_bind]
  rw [compactSegment_eq_phases]
  congr 1
  funext job
  refine eq_of_wp fun Q w => ?_
  rw [wp_bind, wp_bind, wp_runStages_succ, runStage, wp_bind, hmark]
  refine wp_congr fun r w' => ?_
  cases r with
  | error e => rfl
  | ok u =>
    simp only [wp_pure]
    cases dual with
    | false =>
      rw [if_neg Bool.false_ne_true, runStages_lineage, nasHook, if_neg Bool.false_ne_true,
        wp_bind]
      exact wp_bind _ _
    | true =>
      rw [if_pos rfl, runStages_head, nasHook, if_pos rfl, wp_bind, wp_bind]
      refine wp_congr fun r w' => ?_
      cases r with
      | error e => rfl
      | ok u => exact wp_bind _ _

/-! ## runs and crashes -/

/-- The disk and the bucket, the run in progress, and whether a run has returned. -/
structure L1Run (W R : Type) [Blob (Content W R)] where
  world : World (Content W R)
  stage : Option (L1Stage W R)
  returned : Bool

inductive L1Action (W R : Type) [Blob (Content W R)] where
  /-- a call of `compact_segment`, with the answers it is going to get -/
  | start (replies : Stream' Reply) (unlinkFaults : Stream' Bool)
  | step
  | crash
  -- everything else that writes to the disk and the bucket
  | write (path : Path) (c : Content W R)
  | remove (path : Path)
  | putObject (key : Key) (o : Obj (Content W R))
  | removeObject (key : Key)

namespace L1Source

variable {env codec} (src : L1Source env codec) (dual : Bool)

/-- The world a call of `compact_segment` starts in. -/
def callWorld (w : World (Content W R)) (replies : Stream' Reply) (unlinkFaults : Stream' Bool) :
    World (Content W R) :=
  { w with replies := replies, unlinkFaults := unlinkFaults }

def restartStep (s : L1Run W R) : L1Action W R → Option (L1Run W R)
  | .start replies unlinkFaults =>
    match s.stage with
    | some _ => none
    | none =>
      let w := callWorld s.world replies unlinkFaults
      let read := readSegment env codec src.sealedPath
      match read.result w with
      | .error _ => some { s with world := read.after w }
      | .ok job => some { s with world := read.after w, stage := some (.write job) }
  | .step =>
    match s.stage with
    | none => none
    | some stage =>
      let w := (runStage codec dual stage).after s.world
      match (runStage codec dual stage).result s.world with
      | .error _ => some { s with world := w, stage := none }
      | .ok (some next) => some { s with world := w, stage := some next }
      | .ok none => some ⟨w, none, true⟩
  | .crash => some { s with stage := none }
  | .write path c =>
    if src.Foreign path then
      some { s with world := { s.world with files := s.world.files.insert path c } }
    else none
  | .remove path =>
    if src.Foreign path then
      some { s with world := { s.world with files := s.world.files.erase path } }
    else none
  | .putObject key o =>
    if key ≠ src.path then
      some { s with world := { s.world with nas := s.world.nas.insert key o } }
    else none
  | .removeObject key =>
    if key ≠ src.path then
      some { s with world := { s.world with nas := s.world.nas.erase key } }
    else none

/-- The segment is on disk, and nothing has the name of its L1 file yet. -/
def restartMachine : Lib.Machine (L1Run W R) (L1Action W R) where
  init s := s.stage = none ∧ s.returned = false ∧
    s.world.files.lookup src.sealedPath = some (.ndjson src.records) ∧
    s.world.files.lookup src.path = none ∧ s.world.nas.lookup src.path = none
  step := src.restartStep dual

/-- With a dual writer, the NAS answers every request of a run. -/
def nasReachable : L1Run W R → L1Action W R → Prop
  | _, .start replies _ => dual = true → Answering replies
  | _, _ => True

/-- The L1 object is in place: on NAS with a dual writer, on disk without one. -/
def Holds (w : World (Content W R)) : Prop :=
  match dual with
  | true => StoredAt w src.path src.content
  | false => w.files.lookup src.path = some src.content

/-! ## the invariant -/

/-- The segment is there, and nothing but its L1 object has the name of it. -/
structure Intact (w : World (Content W R)) : Prop where
  segment : w.files.lookup src.sealedPath = some (.ndjson src.records)
  onDisk : w.files.lookup src.path = none ∨ w.files.lookup src.path = some src.content
  onNas : w.nas.lookup src.path = none ∨ StoredAt w src.path src.content

/-- What a run in progress relies on. -/
def Ready (w : World (Content W R)) : L1Stage W R → Prop
  | .write job => (dual = true → Answering w.replies) ∧
      (job.table = some src.table ∨
        job.table = none ∧ w.files.lookup src.path = some src.content)
  | .head _ => dual = true ∧ Answering w.replies ∧ w.files.lookup src.path = some src.content
  | .upload _ key sha256 => dual = true ∧ Answering w.replies ∧
      w.files.lookup src.path = some src.content ∧ key = src.path ∧
      sha256 = Blob.sha256 src.content
  | .promote .. => dual = true ∧ StoredAt w src.path src.content
  | .lineage _ => src.Holds dual w
  | .mark _ => src.Holds dual w

end L1Source

def L1Stage.job : L1Stage W R → Job R
  | .write job => job
  | .head job => job
  | .upload job .. => job
  | .promote job .. => job
  | .lineage job => job
  | .mark job => job

/-- The stages still to come, this one included. -/
@[simp] def L1Stage.left : L1Stage W R → Nat
  | .write _ => 6
  | .head _ => 5
  | .upload .. => 4
  | .promote .. => 3
  | .lineage _ => 2
  | .mark _ => 1

namespace L1Source

variable {env codec} (src : L1Source env codec) (dual : Bool)

/-- A run on the segment, in a world it can go on from. -/
structure StageOk (w : World (Content W R)) (stage : L1Stage W R) : Prop where
  ours : ∃ table, stage.job = src.job table
  ready : src.Ready dual w stage

/-- What one stage does. -/
structure StagePost (stage : L1Stage W R) (w : World (Content W R))
    (r : Except Exn (Option (L1Stage W R))) (w' : World (Content W R)) : Prop where
  intact : src.Intact w'
  holds : src.Holds dual w → src.Holds dual w'
  next : r = .ok none ∧ src.Holds dual w' ∨
    ∃ next, r = .ok (some next) ∧ next.left < stage.left ∧ src.StageOk dual w' next

/-- The run goes on from `stage`. -/
def Advances (w : World (Content W R)) (stage : L1Stage W R) : Prop :=
  wp (runStage codec dual stage) (src.StagePost dual stage w) w

variable {src dual} {w w' : World (Content W R)}

/-- The segment, the L1 file and the L1 object are as before. -/
structure Same (src : L1Source env codec) (w w' : World (Content W R)) : Prop where
  segment : w'.files.lookup src.sealedPath = w.files.lookup src.sealedPath
  onDisk : w'.files.lookup src.path = w.files.lookup src.path
  onNas : w'.nas.lookup src.path = w.nas.lookup src.path

theorem Same.storedAt (h : src.Same w w') {c : Content W R} (hst : StoredAt w src.path c) :
    StoredAt w' src.path c := by
  obtain ⟨o, ho, hbody, hsha⟩ := hst
  exact ⟨o, h.onNas.trans ho, hbody, hsha⟩

theorem Same.intact (h : src.Same w w') (hI : src.Intact w) : src.Intact w' where
  segment := h.segment.trans hI.segment
  onDisk := hI.onDisk.imp h.onDisk.trans h.onDisk.trans
  onNas := hI.onNas.imp h.onNas.trans h.storedAt

theorem Same.holds (h : src.Same w w') (hH : src.Holds dual w) : src.Holds dual w' := by
  cases dual with
  | true => exact h.storedAt hH
  | false => exact h.onDisk.trans hH

variable {stage : L1Stage W R}

theorem Same.stageOk (h : src.Same w w') (hreplies : w'.replies = w.replies)
    (hok : src.StageOk dual w stage) : src.StageOk dual w' stage := by
  obtain ⟨hours, hready⟩ := hok
  refine ⟨hours, ?_⟩
  cases stage with
  | promote job key sha256 status => exact ⟨hready.1, h.storedAt hready.2⟩
  | lineage | mark => exact h.holds hready
  | _ =>
    -- the first three stages look at the replies and at the file on disk
    simp only [Ready, hreplies, h.onDisk] at hready ⊢
    exact hready

theorem same_insert {path : Path} (hf : src.Foreign path) (c : Content W R) :
    src.Same w { w with files := w.files.insert path c } :=
  ⟨AList.lookup_insert_ne hf.1.symm, AList.lookup_insert_ne hf.2.symm, rfl⟩

theorem same_erase {path : Path} (hf : src.Foreign path) :
    src.Same w { w with files := w.files.erase path } :=
  ⟨AList.lookup_erase_ne hf.1.symm, AList.lookup_erase_ne hf.2.symm, rfl⟩

/-! ## one stage -/

section

variable {table : Option (Table R)} (hI : src.Intact w)

include hI

theorem write_post (hready : src.Ready dual w (.write (src.job table))) :
    src.Advances dual w (.write (src.job table)) := by
  obtain ⟨hans, htable⟩ := hready
  -- either way the L1 file is on disk afterwards
  have hnext : ∀ w' : World (Content W R), w'.replies = w.replies → w'.nas = w.nas →
      w'.files.lookup src.sealedPath = w.files.lookup src.sealedPath →
      w'.files.lookup src.path = some src.content →
      src.StagePost dual (.write (src.job table)) w
        (.ok (some (if dual then .head (src.job table) else .lineage (src.job table)))) w' := by
    intro w' hreplies hnas hsegment hdisk
    refine ⟨⟨hsegment.trans hI.segment, Or.inr hdisk, ?_⟩, ?_, Or.inr ⟨_, rfl, ?_⟩⟩
    · exact hI.onNas.imp (by rw [hnas]; exact id) (·.of_nas hnas)
    · cases dual with
      | true => exact (·.of_nas hnas)
      | false => exact fun _ => hdisk
    · cases dual with
      | true =>
        refine ⟨by simp, ⟨table, rfl⟩, rfl, ?_, hdisk⟩
        rw [hreplies]
        exact hans rfl
      | false => exact ⟨by simp, ⟨table, rfl⟩, hdisk⟩
  rcases htable with htable | ⟨htable, hdisk⟩
  · obtain rfl : table = some src.table := htable
    exact hnext _ rfl rfl (AList.lookup_insert_ne src.sealedPath_ne_path) (AList.lookup_insert _)
  · obtain rfl : table = none := htable
    exact hnext _ rfl rfl rfl hdisk

theorem head_post (hready : src.Ready dual w (.head (src.job table))) :
    src.Advances dual w (.head (src.job table)) := by
  obtain ⟨hdual, hans, hdisk⟩ := hready
  have hsame : src.Same w w.next := ⟨rfl, rfl, rfl⟩
  have hkey : buildNasKey (src.job table).target.path (some "L1") = some src.path :=
    buildNasKey_l1Target src.named
  rw [Advances, runStage, wp_underHook, hkey, wp_bind]
  refine (wp_readFile hdisk).mpr ((wp_bind _ _).mpr (wp_streamingHead.mpr ?_))
  rw [headOutcome, World.headAnswer, hans.failure]
  rcases hI.onNas with hnone | ⟨o, ho, hbody, hsha⟩
  · rw [hnone]
    exact ⟨hsame.intact hI, hsame.holds, Or.inr ⟨_, rfl, by simp,
      ⟨table, rfl⟩, hdual, hans.tail, hdisk, rfl, rfl⟩⟩
  · rw [ho]
    simp only [hsha, if_true]
    exact ⟨hsame.intact hI, hsame.holds, Or.inr ⟨_, rfl, by simp,
      ⟨table, rfl⟩, hdual, o, ho, hbody, hsha⟩⟩

variable {sha256 : Blob.Digest (Content W R)}

theorem upload_post {key : Key} (hready : src.Ready dual w (.upload (src.job table) key sha256)) :
    src.Advances dual w (.upload (src.job table) key sha256) := by
  obtain ⟨rfl, hans, hdisk, rfl, rfl⟩ := hready
  obtain ⟨etag, versionId, hhead⟩ := hans 0
  replace hhead : w.replies.head = .ok etag versionId := hhead
  have hstored := storedAt_insert w.next src.path src.content etag versionId
  rw [Advances, runStage, wp_underHook, wp_bind]
  refine (wp_streamingUpload hdisk).mpr ?_
  rw [hhead]
  exact ⟨⟨hI.segment, Or.inr hdisk, Or.inr hstored⟩, fun _ => hstored,
    Or.inr ⟨_, rfl, by simp, ⟨table, rfl⟩, rfl, hstored⟩⟩

theorem promote_post {key : Key} {status : PutStatus}
    (hready : src.Ready dual w (.promote (src.job table) key sha256 status)) :
    src.Advances dual w (.promote (src.job table) key sha256 status) := by
  obtain ⟨rfl, hstored⟩ := hready
  rw [Advances, runStage, wp_underHook, wp_bind]
  refine wp_mono (finishL1_files w src.path key sha256 status) ?_
  rintro r w' ⟨hnas, hfiles⟩
  have hstored' : StoredAt w' src.path src.content := hstored.of_nas hnas
  have hI' : src.Intact w' := by
    rcases hfiles with hfiles | hfiles
    · exact ⟨hfiles ▸ hI.segment, hfiles ▸ hI.onDisk, Or.inr hstored'⟩
    · refine ⟨?_, Or.inl (by simp [hfiles]), Or.inr hstored'⟩
      rw [hfiles, AList.lookup_erase_ne src.sealedPath_ne_path]
      exact hI.segment
  cases r <;> exact ⟨hI', fun _ => hstored',
    Or.inr ⟨_, rfl, by simp, ⟨table, rfl⟩, hstored'⟩⟩

theorem lineage_post (hready : src.Ready dual w (.lineage (src.job table))) :
    src.Advances dual w (.lineage (src.job table)) := by
  have hsame := same_insert (w := w) src.foreign_lineage (.text (codec.lineage src.sealedPath))
  exact ⟨hsame.intact hI, hsame.holds, Or.inr ⟨_, rfl, by simp, ⟨table, rfl⟩,
    hsame.holds hready⟩⟩

theorem mark_post (hready : src.Ready dual w (.mark (src.job table))) :
    src.Advances dual w (.mark (src.job table)) := by
  have hpost : ∀ w' : World (Content W R), src.Same w w' →
      src.StagePost dual (.mark (src.job table)) w (.ok none) w' := fun w' hsame =>
    ⟨hsame.intact hI, hsame.holds, Or.inl ⟨rfl, hsame.holds hready⟩⟩
  simp only [Advances, runStage, touch, writeFile, wp_bind, wp_get]
  split
  · exact hpost w ⟨rfl, rfl, rfl⟩
  · exact hpost _ (same_insert src.foreign_marker _)

/-- **One stage** keeps the segment and the L1 object and never raises. -/
theorem runStage_post (hok : src.StageOk dual w stage) : src.Advances dual w stage := by
  obtain ⟨⟨table, hjob⟩, hready⟩ := hok
  cases stage <;> simp only [L1Stage.job] at hjob <;> subst hjob
  · exact write_post hI hready
  · exact head_post hI hready
  · exact upload_post hI hready
  · exact promote_post hI hready
  · exact lineage_post hI hready
  · exact mark_post hI hready

end

/-! ## whole runs -/

/-- Everything up to the write: the table is the one of the segment. -/
theorem readSegment_post (hI : src.Intact w) (hans : dual = true → Answering w.replies) :
    wp (readSegment env codec src.sealedPath) (fun r w' => ∃ job, r = .ok job ∧
      src.Same w w' ∧ src.StageOk dual w' (.write job)) w := by
  let w' : World (Content W R) := { w with dirs := src.target.dir :: w.dirs }
  have hsame : src.Same w w' := ⟨rfl, rfl, rfl⟩
  unfold readSegment
  rw [src.named]
  simp only [ofExcept, mkdir, wp_bind, wp_pure, wp_modify, wp_get]
  rcases hI.onDisk with hnone | hdisk
  · have htable : segmentTable env codec w' src.sealedPath src.target = .ok src.table := by
      unfold segmentTable
      rw [show w'.files.lookup src.sealedPath = _ from hI.segment]
      exact src.converts
    rw [show w.files.lookup src.target.path = none from hnone]
    rw [show segmentTable env codec _ src.sealedPath src.target = _ from htable]
    exact ⟨_, rfl, hsame, ⟨_, rfl⟩, hans, Or.inl rfl⟩
  · rw [show w.files.lookup src.target.path = some src.content from hdisk]
    exact ⟨_, rfl, hsame, ⟨_, rfl⟩, hans, Or.inr ⟨rfl, hdisk⟩⟩

variable (src dual) in
structure Safe (s : L1Run W R) : Prop where
  intact : src.Intact s.world
  stage : ∀ stage, s.stage = some stage → src.StageOk dual s.world stage
  returned : s.returned = true → src.Holds dual s.world

variable {s s' : L1Run W R}

theorem Safe.other (hs : src.Safe dual s) (hsame : src.Same s.world w')
    (hreplies : w'.replies = s.world.replies) : src.Safe dual { s with world := w' } :=
  ⟨hsame.intact hs.intact, fun stage h => hsame.stageOk hreplies (hs.stage stage h),
    fun h => hsame.holds (hs.returned h)⟩

theorem Safe.start (hs : src.Safe dual s) {replies : Stream' Reply} {unlinkFaults : Stream' Bool}
    (hans : dual = true → Answering replies)
    (h : src.restartStep dual s (.start replies unlinkFaults) = some s') : src.Safe dual s' := by
  have hcall : src.Same s.world (callWorld s.world replies unlinkFaults) := ⟨rfl, rfl, rfl⟩
  obtain ⟨job, hjob, hsame, hok⟩ := readSegment_post (hcall.intact hs.intact) hans
  cases hstage : s.stage <;> simp only [restartStep, hstage, Eff.result, hjob, reduceCtorEq] at h
  cases h
  refine ⟨hsame.intact (hcall.intact hs.intact), ?_,
    fun h => hsame.holds (hcall.holds (hs.returned h))⟩
  rintro stage ⟨⟩
  exact hok

theorem Safe.step (hs : src.Safe dual s) (h : src.restartStep dual s .step = some s') :
    src.Safe dual s' := by
  cases hstage : s.stage with
  | none => simp [restartStep, hstage] at h
  | some stage =>
    have hpost := runStage_post hs.intact (hs.stage stage hstage)
    rcases hpost.next with ⟨hr, hholds⟩ | ⟨next, hr, -, hok⟩ <;>
      simp only [restartStep, hstage, Eff.result, hr] at h <;> cases h
    · exact ⟨hpost.intact, nofun, fun _ => hholds⟩
    · refine ⟨hpost.intact, ?_, fun h => hpost.holds (hs.returned h)⟩
      rintro stage ⟨⟩
      exact hok

variable (h : (src.restartMachine dual).Reaches (nasReachable dual) s)
include h

/-- Every action keeps the source safe, a crash included. -/
theorem safe_of_reaches : src.Safe dual s := by
  refine h.invariant (I := src.Safe dual) ?_ ?_
  · rintro s ⟨hstage, hret, hsegment, hdisk, hnas⟩
    exact ⟨⟨hsegment, Or.inl hdisk, Or.inl hnas⟩, by simp [hstage], by simp [hret]⟩
  · intro s a s' hs hg hstep
    cases a with
    | start replies unlinkFaults => exact hs.start hg hstep
    | step => exact hs.step hstep
    | crash =>
      cases hstep
      exact ⟨hs.intact, nofun, hs.returned⟩
    | write path c =>
      obtain ⟨hf, ⟨⟩⟩ := Option.ite_none_right_eq_some.mp hstep
      exact hs.other (same_insert hf c) rfl
    | remove path =>
      obtain ⟨hf, ⟨⟩⟩ := Option.ite_none_right_eq_some.mp hstep
      exact hs.other (same_erase hf) rfl
    | putObject key o =>
      obtain ⟨hne, ⟨⟩⟩ := Option.ite_none_right_eq_some.mp hstep
      exact hs.other ⟨rfl, rfl, AList.lookup_insert_ne (Ne.symm hne)⟩ rfl
    | removeObject key =>
      obtain ⟨hne, ⟨⟩⟩ := Option.ite_none_right_eq_some.mp hstep
      exact hs.other ⟨rfl, rfl, AList.lookup_erase_ne (Ne.symm hne)⟩ rfl

/-! ## main results -/

/-- **Crashes and re-runs.** Once a run has returned, the L1 object is the table of the
segment and stays it, whatever crashes and runs come before and after. -/
theorem restart_holds (hret : s.returned = true) : src.Holds dual s.world :=
  (safe_of_reaches h).returned hret

/-- The stages that are left take the run to its return. -/
theorem reaches_runStages {n : Nat} (hstage : s.stage = some stage) (hleft : stage.left ≤ n) :
    wp (runStages codec dual n stage) (fun r w' => r = .ok () ∧
      (src.restartMachine dual).Reaches (nasReachable dual) ⟨w', none, true⟩) s.world := by
  induction n generalizing s stage with
  | zero => cases stage <;> exact absurd hleft (by simp)
  | succ n ih =>
    have hsafe := safe_of_reaches h
    have hpost := runStage_post hsafe.intact (hsafe.stage stage hstage)
    rw [wp_runStages_succ]
    unfold wp
    rcases hpost.next with ⟨hr, -⟩ | ⟨next, hr, hlt, -⟩ <;> rw [hr]
    · refine ⟨rfl, h.step (a := .step) trivial ?_⟩
      simp only [restartMachine, restartStep, hstage, Eff.result, hr]
      rfl
    · refine ih (s := ⟨_, some next, s.returned⟩) (h.step (a := .step) trivial ?_) rfl (by omega)
      simp only [restartMachine, restartStep, hstage, Eff.result, hr]
      rfl

/-- **A run without a crash** is `compact_segment`, and it returns. -/
theorem run_compactSegment {replies : Stream' Reply} (hidle : s.stage = none)
    (hans : dual = true → Answering replies) (unlinkFaults : Stream' Bool) :
    wp (compactSegment env codec dual src.sealedPath) (fun r w' => r = .ok src.path ∧
      (src.restartMachine dual).Reaches (nasReachable dual) ⟨w', none, true⟩)
      (callWorld s.world replies unlinkFaults) := by
  have hcall : src.Same s.world (callWorld s.world replies unlinkFaults) := ⟨rfl, rfl, rfl⟩
  have hread := readSegment_post (w := callWorld s.world replies unlinkFaults)
    (hcall.intact (safe_of_reaches h).intact) hans
  obtain ⟨job, hjob, -, hok⟩ := hread
  obtain ⟨table, rfl⟩ : ∃ table, job = src.job table := hok.ours
  have hstart : (src.restartMachine dual).Reaches (nasReachable dual)
      ⟨(readSegment env codec src.sealedPath).after (callWorld s.world replies unlinkFaults),
        some (.write (src.job table)), s.returned⟩ := by
    refine h.step (a := .start replies unlinkFaults) hans ?_
    simp only [restartMachine, restartStep, hidle, Eff.result, hjob]
  rw [compactSegment_eq_stages]
  refine wp_bind_ok (Prod.ext hjob rfl) ?_
  refine wp_seq (reaches_runStages hstart rfl le_rfl) ?_ ?_
  · rintro - w' ⟨-, h'⟩
    exact ⟨rfl, h'⟩
  · rintro e w' ⟨he, -⟩
    cases he

end L1Source

end MctraderData.Compactor
