import Mathlib.Algebra.Order.Ring.Rat
import MctraderData.Migration.Harness

/-!
# mctrader-data — the dual-write window

Model of `nas_storage/compaction_barrier.py` and of `ops/dual_write_window_runner.py`. A
cycle of the runner stops the compactor with a signal file, waits until its tasks are
done, compares the partitions on both sides, and lets the compactor go on. What the
clock, the disk, the metrics and the other components do in a cycle is in `Cycle`.

* `barrier_released_iff` — the cycles after which the signal file is gone
* `barrier_left_behind`  — cycles after which it is not
-/

namespace MctraderData.Ops

open Lib Eff
open Harness (InvariantResult InvariantStatus)
open Compactor (hasPrefix)

/-- The exceptions the handlers tell apart. -/
inductive Exn where
  | fileNotFoundError
  | osError
  /-- `JSONDecodeError` and `UnicodeDecodeError` included. -/
  | valueError
  | keyError
  | zeroDivisionError
  | otherException (name : String)
  /-- `KeyboardInterrupt` and `SystemExit`, which are no `Exception`. -/
  | interrupt
deriving DecidableEq, Repr

/-- `except OSError` -/
def Exn.isOSError : Exn → Bool
  | .fileNotFoundError | .osError => true
  | _ => false

/-- `except Exception` -/
def Exn.isException : Exn → Bool
  | .interrupt => false
  | _ => true

/-! ## the barrier -/

inductive BarrierStatus where
  | ok
  | drainTimeout
  | barrierViolated
deriving DecidableEq, Repr

structure BarrierResult where
  status : BarrierStatus
  drainWaitMs : ℚ
  inFlightRemaining : Int
deriving DecidableEq

/-- The parameters of `CompactionBarrier`, of the runner and of its `IOPSCollector`. -/
structure Config where
  drainTimeoutSeconds : Int := 86400
  pollIntervalMs : Int := 100
  localRoot : String
  nasPartitionRoot : String
  evidencePackPath : String
  baselineP99Ms : ℚ := 287065 / 100
  gatePct : ℚ := 15

/-- One turn of the drain loop. -/
structure Poll where
  /-- The state file read, parsed and converted to a count. -/
  state : Except Exn Int
  /-- The clock when the state has been read. -/
  readAt : ℚ
  /-- The clock when it is compared with the deadline. -/
  now : ℚ
  sleep : Except Exn Unit := .ok ()

/-- `_read_in_flight_count`: a state that is missing or does not parse counts as idle. -/
def readInFlightCount (state : Except Exn Int) : Except Exn Int :=
  match state with
  | .error .fileNotFoundError => .ok 0
  | .error .valueError => .ok 0
  | .error .keyError => .ok 0
  | state => state

/-- `time.sleep`, which refuses a negative interval. -/
def timeSleep (cfg : Config) (p : Poll) : Except Exn Unit :=
  if cfg.pollIntervalMs < 0 then .error .valueError else p.sleep

/-- The drain loop; `none` when it goes on after the given polls. -/
def drainLoop (cfg : Config) (startMs deadline : ℚ) :
    List Poll → Option (Except Exn BarrierResult)
  | [] => none
  | p :: rest =>
    match readInFlightCount p.state with
    | .error e => some (.error e)
    | .ok inFlight =>
      let elapsedMs := p.readAt * 1000 - startMs
      if inFlight = 0 then some (.ok ⟨.ok, elapsedMs, 0⟩)
      else if deadline ≤ p.now then some (.ok ⟨.drainTimeout, elapsedMs, inFlight⟩)
      else match timeSleep cfg p with
        | .error e => some (.error e)
        | .ok _ => drainLoop cfg startMs deadline rest

/-- The loop ends at a poll behind the deadline, if it has not ended before. -/
theorem drainLoop_isSome (cfg : Config) (startMs deadline : ℚ) {polls : List Poll}
    (h : ∃ p ∈ polls, deadline ≤ p.now) : (drainLoop cfg startMs deadline polls).isSome := by
  induction polls with
  | nil =>
    obtain ⟨p, hp, -⟩ := h
    cases hp
  | cons p rest ih =>
    unfold drainLoop
    cases hread : readInFlightCount p.state with
    | error e => rfl
    | ok inFlight =>
      simp only []
      split
      · rfl
      split
      · rfl
      · rename_i hnow
        cases hsleep : timeSleep cfg p with
        | error e => rfl
        | ok u =>
          obtain ⟨q, hq, hdeadline⟩ := h
          rcases List.mem_cons.mp hq with rfl | hq
          · exact absurd hdeadline hnow
          · exact ih ⟨q, hq, hdeadline⟩

/-! ## the runner -/

inductive WindowStatus where
  | healthy
  | driftDetected
  | barrierDrainTimeout
  | sopManualGate
  | iopsGateBreached
deriving DecidableEq, Repr

structure IOPSDelta where
  preBaselineP99PutMs : ℚ
  duringP99PutMs : ℚ
  deltaPct : ℚ
  within15pctGate : Bool
  hostDiskReadIops : ℚ
  hostDiskWriteIops : ℚ
  containerIoTimePct : ℚ
deriving DecidableEq

/-- The four queries of `IOPSCollector`. -/
structure Queries where
  prometheus : Except Exn ℚ
  hostReadIops : Except Exn ℚ
  hostWriteIops : Except Exn ℚ
  containerIoPct : Except Exn ℚ

/-- `IOPSCollector.snapshot` -/
def snapshot (cfg : Config) (q : Queries) : Except Exn IOPSDelta :=
  let queried : Except Exn (ℚ × ℚ × ℚ × ℚ) := do
    let duringP99Ms ← q.prometheus
    let readIops ← q.hostReadIops
    let writeIops ← q.hostWriteIops
    let containerIoPct ← q.containerIoPct
    pure (duringP99Ms, readIops, writeIops, containerIoPct)
  match queried with
  | .error e =>
    if e.isOSError then .ok ⟨cfg.baselineP99Ms, cfg.baselineP99Ms, 0, true, 0, 0, 0⟩ else .error e
  | .ok (duringP99Ms, readIops, writeIops, containerIoPct) =>
    if cfg.baselineP99Ms = 0 then .error .zeroDivisionError
    else
      let deltaPct := (duringP99Ms - cfg.baselineP99Ms) / cfg.baselineP99Ms * 100
      .ok ⟨cfg.baselineP99Ms, duringP99Ms, deltaPct, decide (|deltaPct| ≤ cfg.gatePct), readIops,
        writeIops, containerIoPct⟩

/-- The outcome of writing the signal file; a failure may leave a part of it. -/
inductive SignalWrite where
  | written
  | failed (e : Exn) (left : Option String)

/-- What happens outside the runner in one cycle, in the order in which it is asked. The
polls are those up to the end of the drain loop. -/
structure Cycle (cfg : Config) where
  acquireLock : Except Exn Unit
  sopState : Except Exn String
  isManualGate : Except Exn Bool
  emitSopTrigger : Except Exn Unit
  startMs : ℚ
  mkdirSignal : Except Exn Unit
  writeSignal : SignalWrite
  /-- The clock once the signal is set. -/
  armed : ℚ
  polls : List Poll
  ends : (drainLoop cfg startMs (armed + cfg.drainTimeoutSeconds) polls).isSome
  emitBarrier : Except Exn Unit
  partitions : Except Exn (List (String × String))
  /-- The calls of `InvariantHarness.verify`, numbered. -/
  verify : Nat → (localPartition nasPartition : String) → Except Exn InvariantResult
  emitVerify : Nat → Except Exn Unit
  queries : Queries
  emitIops : Except Exn Unit
  unlinkSignal : Except Exn Unit
  writeEvidence : Except Exn Unit
  emitStatus : Except Exn Unit

structure EvidenceEntry where
  status : WindowStatus
  driftCount : Nat
  partitions : Nat
  iopsGateOk : Bool
  iopsDeltaPct : Option ℚ
  consecutivePassCount : Nat

/-- The disk, and what the runner keeps from cycle to cycle. -/
structure Site where
  /-- The text of the signal file. -/
  signal : Option String := none
  locked : Bool := false
  evidence : List EvidenceEntry := []
  consecutivePassCount : Nat := 0

/-- The local variables of `run`. -/
structure Frame where
  site : Site
  barrierResult : Option BarrierResult := none
  perPartitionResults : AList fun _ : String => InvariantResult := ∅
  iopsDelta : Option IOPSDelta := none
  status : WindowStatus := .healthy
  sopState : String := "auto_resume"

structure DualWriteWindowResult where
  status : WindowStatus
  barrierResult : Option BarrierResult
  perPartitionInvariantResults : AList fun _ : String => InvariantResult := ∅
  iopsDelta : Option IOPSDelta := none
  sopState : String := "auto_resume"
  evidencePackPath : Option String := none

/-- A part of `run`. -/
abbrev Phase := Eff Frame Exn

def setSignal (signal : Option String) : Phase Unit :=
  modify fun f => { f with site := { f.site with signal := signal } }

section

variable {cfg : Config} (c : Cycle cfg)

/-- `_emit_barrier_signal` -/
def emitBarrierSignal : Phase Unit := do
  Eff.lift c.mkdirSignal
  match c.writeSignal with
  | .written => setSignal (some "barrier_active")
  | .failed e left => do
    setSignal left
    throw e

/-- How the drain loop ends. -/
def Cycle.drained : Except Exn BarrierResult :=
  (drainLoop cfg c.startMs (c.armed + cfg.drainTimeoutSeconds) c.polls).get c.ends

/-- `drain_and_block` -/
def drainAndBlock : Phase BarrierResult := do
  emitBarrierSignal c
  Eff.lift c.drained

/-- `release`; an `OSError` is logged only. -/
def release : Phase Unit :=
  match c.unlinkSignal with
  | .ok _ => setSignal none
  | .error e => if e.isOSError then pure () else throw e

/-- The state of the SOP for the report; an `Exception` leaves the default. -/
def readSopState : Phase Unit :=
  match c.sopState with
  | .ok sopState => modify fun f => { f with sopState := sopState }
  | .error e => if e.isException then pure () else throw e

/-- Phase B: the loop over the partitions. -/
def verifyPartitions : Nat → List (String × String) → Phase Unit
  | _, [] => pure ()
  | i, (partition, symbol) :: rest => do
    let nasPartition :=
      if hasPrefix cfg.nasPartitionRoot partition then partition
      else cfg.nasPartitionRoot ++ "/" ++ partition
    let invResult ← Eff.lift (c.verify i (cfg.localRoot ++ "/" ++ partition) nasPartition)
    modify fun f => { f with
      perPartitionResults := f.perPartitionResults.insert (partition ++ "|" ++ symbol) invResult }
    Eff.lift (c.emitVerify i)
    verifyPartitions (i + 1) rest

/-- The results that are not `all_pass`. -/
def driftCount (results : AList fun _ : String => InvariantResult) : Nat :=
  (results.entries.filter fun r => r.2.status ≠ .allPass).length

/-- Phase C. -/
def judgeDrift : Phase Unit :=
  modify fun f =>
    if driftCount f.perPartitionResults ≠ 0 then
      { f with status := .driftDetected, site := { f.site with consecutivePassCount := 0 } }
    else
      { f with
        status := .healthy
        site := { f.site with consecutivePassCount := f.site.consecutivePassCount + 1 } }

/-- Phase D: a breach replaces `healthy` only. -/
def measureIops : Phase Unit := do
  let iopsDelta ← Eff.lift (snapshot cfg c.queries)
  modify fun f => { f with iopsDelta := some iopsDelta }
  Eff.lift c.emitIops
  modify fun f =>
    if ¬ iopsDelta.within15pctGate ∧ f.status = .healthy then { f with status := .iopsGateBreached }
    else f

/-- Phases B to D. -/
def verifyAndMeasure : Phase Unit := do
  let partitions ← Eff.lift c.partitions
  verifyPartitions c 0 partitions
  judgeDrift
  measureIops c

/-- What comes after the drain. -/
def afterDrain (barrierResult : BarrierResult) : Phase (Option DualWriteWindowResult) := do
  Eff.lift c.emitBarrier
  if barrierResult.status = .drainTimeout ∨ barrierResult.status = .barrierViolated then do
    modify fun f => { f with status := .barrierDrainTimeout }
    let f ← get
    pure (some
      { status := f.status
        barrierResult := some barrierResult
        sopState := f.sopState })
  else do
    verifyAndMeasure c
    pure none

/-- The barrier, with its result in a local variable that the `finally` block reads. -/
def barrierPhases : Phase (Option DualWriteWindowResult) := do
  let barrierResult ← drainAndBlock c
  modify fun f => { f with barrierResult := some barrierResult }
  afterDrain c barrierResult

/-- The guarded part of `run`; `none` when it runs to its end. -/
def runPhases : Phase (Option DualWriteWindowResult) := do
  readSopState c
  if ← Eff.lift c.isManualGate then
    modify fun f => { f with status := .sopManualGate }
    Eff.lift c.emitSopTrigger
    let f ← get
    pure (some
      { status := f.status
        barrierResult := none
        sopState := f.sopState
        evidencePackPath := some cfg.evidencePackPath })
  else barrierPhases c

/-- `_append_evidence_pack`; an `Exception` is logged only. -/
def appendEvidencePack : Phase Unit :=
  match c.writeEvidence with
  | .ok _ => modify fun f =>
    let entry : EvidenceEntry :=
      { status := f.status
        driftCount := driftCount f.perPartitionResults
        partitions := f.perPartitionResults.keys.length
        iopsGateOk := (f.iopsDelta.map IOPSDelta.within15pctGate).getD true
        iopsDeltaPct := f.iopsDelta.map IOPSDelta.deltaPct
        consecutivePassCount := f.site.consecutivePassCount }
    { f with site := { f.site with evidence := f.site.evidence ++ [entry] } }
  | .error e => if e.isException then pure () else throw e

/-- Phase E, the `finally` block. The barrier is released only after a drain that returned
`ok`. -/
def exitCycle : Phase Unit := do
  let f ← get
  if f.barrierResult.map BarrierResult.status = some .ok then release c else pure ()
  appendEvidencePack c
  modify fun f => { f with site := { f.site with locked := false } }
  Eff.lift c.emitStatus

/-- `run` after the lock is taken. -/
def runLocked : Phase DualWriteWindowResult := do
  match ← ensuring (runPhases c) (exitCycle c) with
  | some early => pure early
  | none => do
    let f ← get
    pure
      { status := f.status
        barrierResult := f.barrierResult
        perPartitionInvariantResults := f.perPartitionResults
        iopsDelta := f.iopsDelta
        sopState := f.sopState
        evidencePackPath := some cfg.evidencePackPath }

/-- `run`; a lock that is taken ends the cycle. -/
def run : Eff Site Exn DualWriteWindowResult :=
  match c.acquireLock with
  | .error e =>
    if e.isOSError then pure { status := .barrierDrainTimeout, barrierResult := none } else throw e
  | .ok _ => fun s =>
    let outcome := runLocked c { site := { s with locked := true } }
    (outcome.1, outcome.2.site)

end

/-! ## when the drain loop returns `ok` -/

/-- A poll after which the loop goes on. -/
def Poll.Waits (cfg : Config) (deadline : ℚ) (p : Poll) : Prop :=
  (∃ inFlight, readInFlightCount p.state = .ok inFlight ∧ inFlight ≠ 0) ∧ p.now < deadline ∧
    timeSleep cfg p = .ok ()

/-- The compactor is seen idle at a poll before which the loop only waited. -/
def SeenIdle (cfg : Config) (deadline : ℚ) (polls : List Poll) : Prop :=
  ∃ before p rest, polls = before ++ p :: rest ∧ (∀ q ∈ before, q.Waits cfg deadline) ∧
    readInFlightCount p.state = .ok 0

section

variable {cfg : Config} {deadline : ℚ} {p : Poll} {polls : List Poll}

theorem seenIdle_cons :
    SeenIdle cfg deadline (p :: polls) ↔
      readInFlightCount p.state = .ok 0 ∨ p.Waits cfg deadline ∧ SeenIdle cfg deadline polls := by
  constructor
  · rintro ⟨before, q, rest, heq, hbefore, hidle⟩
    cases before with
    | nil =>
      cases heq
      exact Or.inl hidle
    | cons p' before =>
      cases heq
      obtain ⟨hp, hbefore⟩ := List.forall_mem_cons.mp hbefore
      exact Or.inr ⟨hp, before, q, rest, rfl, hbefore, hidle⟩
  · rintro (hidle | ⟨hwaits, before, q, rest, rfl, hbefore, hidle⟩)
    · exact ⟨[], p, polls, rfl, nofun, hidle⟩
    · exact ⟨p :: before, q, rest, rfl, List.forall_mem_cons.mpr ⟨hwaits, hbefore⟩, hidle⟩

/-- The loop returns `ok` just when the compactor is seen idle in time. -/
theorem drainLoop_ok_iff {startMs : ℚ} {r : Except Exn BarrierResult}
    (h : drainLoop cfg startMs deadline polls = some r) :
    (∃ b, r = .ok b ∧ b.status = .ok) ↔ SeenIdle cfg deadline polls := by
  induction polls with
  | nil => cases h
  | cons p rest ih =>
    rw [seenIdle_cons]
    unfold drainLoop at h
    cases hread : readInFlightCount p.state with
    | error e =>
      simp only [hread] at h
      cases h
      simp [Poll.Waits, hread]
    | ok inFlight =>
      simp only [hread] at h
      split at h
      · rename_i hzero
        cases h
        simp [hzero]
      rename_i hne
      split at h
      · rename_i hdeadline
        cases h
        simp [Poll.Waits, hne, hdeadline]
      rename_i hnow
      cases hsleep : timeSleep cfg p with
      | error e =>
        simp only [hsleep] at h
        cases h
        simp [Poll.Waits, hne, hsleep]
      | ok u =>
        rw [hsleep] at h
        simp [Poll.Waits, ih h, hread, hne, not_le.mp hnow, hsleep]

end

/-! ## the signal over a cycle -/

/-- The signal and the result of the barrier are as before. -/
def SameBarrier (f f' : Frame) : Prop :=
  f'.site.signal = f.site.signal ∧ f'.barrierResult = f.barrierResult

instance : Std.Refl SameBarrier := ⟨fun _ => ⟨rfl, rfl⟩⟩

instance : IsTrans Frame SameBarrier :=
  ⟨fun _ _ _ h h' => ⟨h'.1.trans h.1, h'.2.trans h.2⟩⟩

/-- Either the drain returned `ok`, and the signal will be released, or there is none. -/
def Frame.Settled (f : Frame) : Prop :=
  f.barrierResult.map BarrierResult.status = some .ok ∨ f.site.signal = none

variable {f : Frame}

theorem SameBarrier.settled_iff {f' : Frame} (h : SameBarrier f f') : f'.Settled ↔ f.Settled := by
  unfold Frame.Settled
  rw [h.1, h.2]

section

variable {cfg : Config} (c : Cycle cfg)

/-- Only an exception that is no `Exception` ends the cycle here. -/
theorem readSopState_post (f : Frame) :
    wp (readSopState c) (fun r f' => SameBarrier f f' ∧
      (r = .ok () ↔ ∀ e, c.sopState = .error e → e.isException = true)) f := by
  unfold readSopState
  cases c.sopState with
  | ok sopState => exact ⟨⟨rfl, rfl⟩, iff_of_true rfl nofun⟩
  | error e =>
    simp only []
    split
    · rename_i hexc
      exact ⟨⟨rfl, rfl⟩, iff_of_true rfl (by simp [hexc])⟩
    · rename_i hexc
      exact ⟨⟨rfl, rfl⟩, iff_of_false nofun fun h => hexc (h e rfl)⟩

theorem verifyPartitions_keeps (i : Nat) (partitions : List (String × String)) :
    Eff.Keeps SameBarrier (verifyPartitions c i partitions) := by
  induction partitions generalizing i with
  | nil => exact keeps_pure _
  | cons x rest ih =>
    refine (keeps_lift _).bind fun r => ?_
    refine (keeps_modify fun _ => ⟨rfl, rfl⟩).bind fun _ => ?_
    exact (keeps_lift _).bind fun _ => ih (i + 1)

theorem judgeDrift_keeps : Eff.Keeps SameBarrier judgeDrift := by
  refine keeps_modify fun f => ?_
  split <;> exact ⟨rfl, rfl⟩

theorem measureIops_keeps : Eff.Keeps SameBarrier (measureIops c) := by
  refine (keeps_lift _).bind fun iopsDelta => ?_
  refine (keeps_modify fun _ => ⟨rfl, rfl⟩).bind fun _ => ?_
  refine (keeps_lift _).bind fun _ => keeps_modify fun f => ?_
  split <;> exact ⟨rfl, rfl⟩

theorem verifyAndMeasure_keeps : Eff.Keeps SameBarrier (verifyAndMeasure c) := by
  refine (keeps_lift _).bind fun partitions => ?_
  refine (verifyPartitions_keeps c 0 partitions).bind fun _ => ?_
  exact judgeDrift_keeps.bind fun _ => measureIops_keeps c

theorem appendEvidencePack_keeps : Eff.Keeps SameBarrier (appendEvidencePack c) := by
  unfold appendEvidencePack
  split
  · exact keeps_modify fun _ => ⟨rfl, rfl⟩
  · split
    · exact keeps_pure _
    · exact keeps_throw _

/-- After the `finally` block there is no signal just when the phases left things
settled. -/
theorem exitCycle_post (hunlink : c.unlinkSignal = .ok ()) (f : Frame) :
    wp (exitCycle c) (fun _ f' => f'.site.signal = none ↔ f.Settled) f := by
  have hrest : Eff.Keeps SameBarrier (do
      appendEvidencePack c
      modify fun f => { f with site := { f.site with locked := false } }
      Eff.lift c.emitStatus) := by
    refine (appendEvidencePack_keeps c).bind fun _ => ?_
    exact (keeps_modify fun _ => ⟨rfl, rfl⟩).bind fun _ => keeps_lift _
  unfold exitCycle
  rw [wp_bind, wp_get]
  simp only []
  split
  · rename_i hok
    have hrelease : wp (release c) (fun r f₁ => r = .ok () ∧ f₁.site.signal = none) f := by
      unfold release
      rw [hunlink]
      exact ⟨rfl, rfl⟩
    refine wp_seq hrelease ?_ fun _ _ h => nomatch h.1
    rintro _ f₁ ⟨-, hnone⟩
    exact wp_mono (hrest.wp f₁) fun _ f' h => iff_of_true (h.1.trans hnone) (Or.inl hok)
  · rename_i hnot
    refine wp_mono (hrest.wp f) fun _ f' h => ?_
    rw [h.1]
    exact (or_iff_right hnot).symm

/-- The cycle gets as far as the barrier. -/
def Cycle.ReachesBarrier : Prop :=
  (∀ e, c.sopState = .error e → e.isException = true) ∧ c.isManualGate = .ok false

/-- The signal file is there after the attempt to write it. -/
def Cycle.SetsSignal : Prop :=
  c.mkdirSignal = .ok () ∧ ∀ e left, c.writeSignal = .failed e left → left ≠ none

/-- The signal is written and the compactor is seen idle in time. -/
def Cycle.Drains : Prop :=
  c.writeSignal = .written ∧ SeenIdle cfg (c.armed + cfg.drainTimeoutSeconds) c.polls

theorem Cycle.drained_ok_iff (hwritten : c.writeSignal = .written) :
    (∃ b, c.drained = .ok b ∧ b.status = .ok) ↔ c.Drains := by
  rw [Cycle.Drains, and_iff_right hwritten]
  exact drainLoop_ok_iff (Option.some_get c.ends).symm

/-- After a drain, the signal and its result stay as they are. -/
theorem afterDrain_post (b : BarrierResult) (hresult : f.barrierResult = some b) :
    wp (afterDrain c b) (fun _ f' => f'.Settled ↔ b.status = .ok ∨ f.site.signal = none) f := by
  have hkeeps : Eff.Keeps SameBarrier (afterDrain c b) := by
    refine (keeps_lift _).bind fun _ => ?_
    split
    · refine (keeps_modify fun _ => ⟨rfl, rfl⟩).bind fun _ => ?_
      exact keeps_get.bind fun _ => keeps_pure _
    · exact (verifyAndMeasure_keeps c).bind fun _ => keeps_pure _
  refine wp_mono (hkeeps.wp f) fun _ f' h => ?_
  rw [h.settled_iff, Frame.Settled, hresult]
  simp

/-- From the barrier on, without a signal before it. -/
theorem barrierPhases_post (hsignal : f.site.signal = none) (hresult : f.barrierResult = none) :
    wp (barrierPhases c) (fun _ f' => f'.Settled ↔ (c.SetsSignal → c.Drains)) f := by
  simp only [barrierPhases, drainAndBlock, emitBarrierSignal, wp_bind, wp_lift]
  cases hmkdir : c.mkdirSignal with
  | error e =>
    exact iff_of_true (Or.inr hsignal) (by simp [Cycle.SetsSignal, hmkdir])
  | ok u =>
    cases hwrite : c.writeSignal with
    | failed e left =>
      -- what the failed write leaves stays there
      have hsets : c.SetsSignal ↔ left ≠ none := by simp [Cycle.SetsSignal, hmkdir, hwrite]
      have hdrains : ¬ c.Drains := by simp [Cycle.Drains, hwrite]
      simp only [setSignal, wp_bind, wp_modify, wp_throw]
      rw [hsets, Frame.Settled, hresult]
      simp [hdrains]
    | written =>
      have hsets : c.SetsSignal := by simp [Cycle.SetsSignal, hmkdir, hwrite]
      simp only [setSignal, wp_modify]
      have hdrained := c.drained_ok_iff hwrite
      cases hd : c.drained with
      | error e =>
        refine iff_of_false ?_ fun h => ?_
        · simp [Frame.Settled, hresult]
        · simpa [hd] using hdrained.mpr (h hsets)
      | ok b =>
        refine wp_mono (afterDrain_post c b rfl) fun _ f' h => ?_
        rw [h]
        simp [hsets, ← hdrained, hd]

/-- The phases, without a signal before them. -/
theorem runPhases_post (hsignal : f.site.signal = none) (hresult : f.barrierResult = none) :
    wp (runPhases c)
      (fun _ f' => f'.Settled ↔ (c.ReachesBarrier → c.SetsSignal → c.Drains)) f := by
  have hfree : ∀ f', SameBarrier f f' → f'.Settled := fun f' h =>
    Or.inr (h.1.trans hsignal)
  refine wp_seq (readSopState_post c f) ?_ ?_
  swap
  · rintro e f₁ ⟨hsame, hok⟩
    refine iff_of_true (hfree f₁ hsame) fun hreaches => ?_
    cases hok.mpr hreaches.1
  rintro _ f₁ ⟨hsame, hok⟩
  cases hgate : c.isManualGate with
  | error e =>
    exact iff_of_true (hfree f₁ hsame) (by simp [Cycle.ReachesBarrier, hgate])
  | ok gate =>
    cases gate with
    | true =>
      have hkeeps : Eff.Keeps SameBarrier (do
          modify fun f => { f with status := .sopManualGate }
          Eff.lift c.emitSopTrigger
          let f ← get
          pure (some
            { status := f.status
              barrierResult := none
              sopState := f.sopState
              evidencePackPath := some cfg.evidencePackPath }) :
          Phase (Option DualWriteWindowResult)) := by
        refine (keeps_modify fun _ => ⟨rfl, rfl⟩).bind fun _ => ?_
        refine (keeps_lift _).bind fun _ => ?_
        exact keeps_get.bind fun _ => keeps_pure _
      refine wp_mono (hkeeps.wp f₁) fun _ f' h => ?_
      exact iff_of_true (hfree f' (IsTrans.trans f f₁ f' hsame h))
        (by simp [Cycle.ReachesBarrier, hgate])
    | false =>
      have hreaches : c.ReachesBarrier := ⟨hok.mp rfl, hgate⟩
      refine wp_mono (barrierPhases_post c (hsame.1.trans hsignal) (hsame.2.trans hresult)) ?_
      intro _ f' h
      rw [h]
      exact ⟨fun h _ => h, fun h => h hreaches⟩

/-- **The barrier is released** after a cycle, returned or raised, just when the cycle did
not come to set the signal or saw the compactor idle in time. -/
theorem barrier_released_iff {s : Site} (habsent : s.signal = none)
    (hremovable : c.unlinkSignal = .ok ()) :
    ((run c).after s).signal = none ↔
      (c.acquireLock = .ok () → c.ReachesBarrier → c.SetsSignal → c.Drains) := by
  cases hlock : c.acquireLock with
  | error e =>
    refine iff_of_true ?_ nofun
    refine (?_ : wp (run c) (fun _ s' => s'.signal = none) s)
    unfold run
    rw [hlock]
    simp only []
    split <;> exact habsent
  | ok u =>
    have hlocked : wp (runLocked c) (fun _ f' => f'.site.signal = none ↔
        (c.ReachesBarrier → c.SetsSignal → c.Drains)) { site := { s with locked := true } } := by
      have hcycle : wp (ensuring (runPhases c) (exitCycle c)) (fun _ f' =>
          f'.site.signal = none ↔ (c.ReachesBarrier → c.SetsSignal → c.Drains))
          { site := { s with locked := true } } := by
        refine wp_ensuring.mpr (wp_mono (runPhases_post c habsent rfl) fun r f₁ h₁ => ?_)
        refine wp_mono (exitCycle_post c hremovable f₁) fun rc f₂ h₂ => ?_
        cases rc <;> exact h₂.trans h₁
      refine wp_seq hcycle ?_ fun e f₁ h => h
      rintro early f₁ h
      cases early <;> exact h
    have hrun : (run c).after s =
        ((runLocked c).after { site := { s with locked := true } }).site := by
      unfold run
      rw [hlock]
      rfl
    rw [hrun]
    exact Iff.trans hlocked ⟨fun h _ => h, fun h => h rfl⟩

end

/-! ## cycles -/

/-- The default parameters. -/
def defaultConfig : Config where
  localRoot := "data"
  nasPartitionRoot := "market"
  evidencePackPath := "evidence.md"

/-- A cycle in which nothing fails outside the drain loop, which ends with its first
poll. -/
def pollOnce (p : Poll) (h : (drainLoop defaultConfig 0 (0 + 86400) [p]).isSome) :
    Cycle defaultConfig where
  acquireLock := .ok ()
  sopState := .ok "auto_resume"
  isManualGate := .ok false
  emitSopTrigger := .ok ()
  startMs := 0
  mkdirSignal := .ok ()
  writeSignal := .written
  armed := 0
  polls := [p]
  ends := h
  emitBarrier := .ok ()
  partitions := .ok []
  verify := fun _ _ _ => .error .osError
  emitVerify := fun _ => .ok ()
  queries := ⟨.ok 2900, .ok 0, .ok 0, .ok 0⟩
  emitIops := .ok ()
  unlinkSignal := .ok ()
  writeEvidence := .ok ()
  emitStatus := .ok ()

/-- The compactor is idle. -/
theorem barrier_released_idle :
    ((run (pollOnce ⟨.ok 0, 1, 1, .ok ()⟩ rfl)).after {}).signal = none := by
  refine (barrier_released_iff (pollOnce ⟨.ok 0, 1, 1, .ok ()⟩ rfl) rfl rfl).mpr ?_
  intro _ _ _
  exact ⟨rfl, [], ⟨.ok 0, 1, 1, .ok ()⟩, [], rfl, nofun, rfl⟩

/-- Three tasks are still in flight at the deadline; and a state file that holds no JSON
object, so that reading it raises. -/
theorem barrier_left_behind :
    ((run (pollOnce ⟨.ok 3, 86401, 86401, .ok ()⟩ (by decide +kernel))).after {}).signal =
      some "barrier_active" ∧
    ((run (pollOnce ⟨.error (.otherException "AttributeError"), 1, 1, .ok ()⟩ rfl)).after {}).signal
      = some "barrier_active" := by
  decide +kernel

end MctraderData.Ops
