import Mathlib.Algebra.Order.Ring.Unbundled.Rat

/-!
# mctrader-data — the circuit breaker of the readers

Model of `io/dr_mode.py`. `time.monotonic()` is an argument in seconds; one call reads
it once. Prometheus metrics, the override flag and the two test counters are left out:
nothing reads them.

## Results

* `Known.currentState`, `Known.recordSuccess`, `Known.recordFailure` — only `setMode`
  enters `UNKNOWN_TIER`.
-/

namespace MctraderData.Tier

inductive DrState where
  | closed
  | opened
  | halfOpen
  | unknownTier
deriving DecidableEq, Repr

/-- The arguments of the constructor. -/
structure DrConfig where
  consecutiveFailureThreshold : ℤ := 5
  slidingWindowSeconds : ℚ := 60
  errorCountThreshold : ℤ := 5
  latencyP99ThresholdMs : ℚ := 500
  latencyCountThreshold : ℤ := 3
  halfOpenDelaySeconds : ℚ := 30

/-- `(timestamp, success, status_code, latency_ms)` -/
structure WindowEntry where
  timestamp : ℚ
  success : Bool
  statusCode : ℤ
  latencyMs : ℚ

structure DrMode where
  config : DrConfig
  state : DrState := .closed
  consecutiveFailure : ℕ := 0
  slidingWindow : List WindowEntry := []
  openStartedAt : Option ℚ := none

namespace DrMode

/-- `_transition` -/
def transition (now : ℚ) (newState : DrState) (dr : DrMode) : DrMode :=
  if dr.state = newState then dr
  else match newState with
    | .opened => { dr with state := newState, openStartedAt := some now }
    | .closed => { dr with state := newState, openStartedAt := none, consecutiveFailure := 0 }
    | _ => { dr with state := newState }

/-- `_try_half_open_locked` -/
def tryHalfOpen (now : ℚ) (dr : DrMode) : DrMode :=
  if dr.state ≠ .opened then dr
  else match dr.openStartedAt with
    | none => dr
    | some started =>
      if dr.config.halfOpenDelaySeconds ≤ now - started then dr.transition now .halfOpen else dr

/-- `current_state`: the breaker after the call; its state is what is returned. -/
def currentState (now : ℚ) (dr : DrMode) : DrMode :=
  if dr.state = .opened then dr.tryHalfOpen now else dr

/-- `record_success` -/
def recordSuccess (now : ℚ) (dr : DrMode) : DrMode :=
  let dr : DrMode := { dr with
    slidingWindow := dr.slidingWindow ++ [⟨now, true, 200, 0⟩]
    consecutiveFailure := 0 }
  if dr.state = .halfOpen then dr.transition now .closed else dr

/-- The entries that are still in the window. -/
def trimWindow (now : ℚ) (dr : DrMode) : DrMode :=
  { dr with slidingWindow := dr.slidingWindow.dropWhile fun e =>
      decide (e.timestamp < now - dr.config.slidingWindowSeconds) }

def errorCount (dr : DrMode) : ℕ :=
  dr.slidingWindow.countP fun e => !e.success && decide (500 ≤ e.statusCode ∧ e.statusCode < 600)

def highLatencyCount (dr : DrMode) : ℕ :=
  dr.slidingWindow.countP fun e => decide (dr.config.latencyP99ThresholdMs < e.latencyMs)

/-- `_check_thresholds_locked` -/
def checkThresholds (now : ℚ) (dr : DrMode) : DrMode :=
  if dr.config.consecutiveFailureThreshold ≤ dr.consecutiveFailure then dr.transition now .opened
  else
    let dr := dr.trimWindow now
    if dr.config.errorCountThreshold ≤ dr.errorCount then dr.transition now .opened
    else if dr.config.latencyCountThreshold ≤ dr.highLatencyCount then dr.transition now .opened
    else dr

/-- `record_failure` -/
def recordFailure (now : ℚ) (statusCode : ℤ) (latencyMs : ℚ) (dr : DrMode) : DrMode :=
  let dr : DrMode := { dr with
    slidingWindow := dr.slidingWindow ++ [⟨now, false, statusCode, latencyMs⟩]
    consecutiveFailure := dr.consecutiveFailure + 1 }
  match dr.state with
  | .halfOpen => dr.transition now .opened
  | .closed => dr.checkThresholds now
  | _ => dr

/-- `set_mode` -/
def setMode (now : ℚ) (newState : DrState) (dr : DrMode) : DrMode :=
  match newState with
  | .opened => { dr with state := newState, openStartedAt := some now }
  | _ => { dr with state := newState }

/-- The states in which the NAS is not asked. -/
def blocking (dr : DrMode) : Bool := dr.state = .opened || dr.state = .unknownTier

/-! ## the state UNKNOWN_TIER -/

/-- The breaker is not in the state that only an operator leaves. -/
def Known (dr : DrMode) : Prop := dr.state ≠ .unknownTier

variable {dr : DrMode}

theorem state_transition (now : ℚ) (newState : DrState) (dr : DrMode) :
    (dr.transition now newState).state = newState := by
  unfold transition
  split
  case isTrue h => exact h
  case isFalse => cases newState <;> rfl

theorem Known.transition {newState : DrState} (h : newState ≠ .unknownTier) (now : ℚ)
    (dr : DrMode) : (dr.transition now newState).Known := by
  unfold Known
  rwa [state_transition]

section

variable (h : dr.Known) (now : ℚ)
include h

theorem Known.currentState : (dr.currentState now).Known := by
  unfold DrMode.currentState tryHalfOpen
  split
  · split
    · exact h
    · split
      · exact h
      · split
        · exact Known.transition (by decide) now dr
        · exact h
  · exact h

theorem Known.recordSuccess : (dr.recordSuccess now).Known := by
  unfold DrMode.recordSuccess
  dsimp only
  split
  · exact Known.transition (by decide) now _
  · exact h

theorem Known.checkThresholds : (dr.checkThresholds now).Known := by
  unfold DrMode.checkThresholds
  split
  · exact Known.transition (by decide) now _
  · dsimp only
    split
    · exact Known.transition (by decide) now _
    · split
      · exact Known.transition (by decide) now _
      · exact h

theorem Known.recordFailure (statusCode : ℤ) (latencyMs : ℚ) :
    (dr.recordFailure now statusCode latencyMs).Known := by
  unfold DrMode.recordFailure
  dsimp only
  split
  · exact Known.transition (by decide) now _
  · refine Known.checkThresholds ?_ now
    exact h
  · exact h

end

/-- A breaker that blocks and was not set by an operator is `OPEN`. -/
theorem Known.state_of_blocking (h : dr.Known) (hblock : dr.blocking = true) :
    dr.state = .opened := by
  unfold blocking at hblock
  rw [Bool.or_eq_true, decide_eq_true_iff, decide_eq_true_iff] at hblock
  exact hblock.resolve_right h

end DrMode

end MctraderData.Tier
