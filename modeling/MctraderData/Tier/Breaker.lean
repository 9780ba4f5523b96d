import Mathlib.Data.List.DropRight
import Mathlib.Tactic.Linarith
import MctraderData.Lib.SlidingWindow
import MctraderData.Lib.Transition
import MctraderData.Tier.DrMode

/-!
# mctrader-data — the circuit breaker over whole histories

Sequences of calls of `DRMode` under a clock that does not go back. Here every reading of
`time.monotonic()` in a call is its own: `record_failure` reads the clock for the entry it
records, again to prune the window, and again when it opens the breaker.

`Watched` keeps beside the breaker what only the statements look at: the clock, every
recorded call, and when OPEN was last entered or set. The breaker's counters are then
counts over that history: the window that is left holds all of it that is not too old.

## Results

* `Watched.Inv`            — counter, window and entry time in terms of the history.
* `breaker_transitions`    — which call changes the state, from each state.
* `fresh_start_iff`        — when a breaker that has just closed has forgotten its past.
* `reopened_at_once`       — breakers that have not.
-/

namespace MctraderData.Tier

open Lib

/-! ## calls -/

namespace DrMode

/-- `_check_thresholds_locked`, with the clock as the window and the transition read it. -/
def checkThresholdsAt (check enter : ℚ) (dr : DrMode) : DrMode :=
  if dr.config.consecutiveFailureThreshold ≤ dr.consecutiveFailure then dr.transition enter .opened
  else
    let dr := dr.trimWindow check
    if dr.config.errorCountThreshold ≤ dr.errorCount then dr.transition enter .opened
    else if dr.config.latencyCountThreshold ≤ dr.highLatencyCount then dr.transition enter .opened
    else dr

/-- The breaker with one more failure on record. -/
def failed (e : WindowEntry) (dr : DrMode) : DrMode :=
  { dr with
    slidingWindow := dr.slidingWindow ++ [e]
    consecutiveFailure := dr.consecutiveFailure + 1 }

end DrMode

/-- The arguments of `record_failure`, and its readings of the clock: for the entry, for the
window and for the transition. -/
structure Failure where
  statusCode : ℤ
  latencyMs : ℚ
  now : ℚ
  check : ℚ
  enter : ℚ
  now_le_check : now ≤ check
  check_le_enter : check ≤ enter

def Failure.entry (f : Failure) : WindowEntry := ⟨f.now, false, f.statusCode, f.latencyMs⟩

/-- `record_failure`, with all its readings of the clock. -/
def DrMode.recordFailureAt (f : Failure) (dr : DrMode) : DrMode :=
  match dr.state with
  | .halfOpen => (dr.failed f.entry).transition f.enter .opened
  | .closed => (dr.failed f.entry).checkThresholdsAt f.check f.enter
  | _ => dr.failed f.entry

/-- A call, with its readings of the clock. -/
inductive BreakerCall where
  | recordSuccess (now : ℚ)
  | recordFailure (f : Failure)
  | setMode (newState : DrState) (now : ℚ)
  | currentState (now : ℚ)

namespace BreakerCall

/-- The first reading of the clock. -/
def start : BreakerCall → ℚ
  | recordSuccess now | setMode _ now | currentState now => now
  | recordFailure f => f.now

/-- The last reading of the clock. A call that opens the breaker opens it then. -/
def stop : BreakerCall → ℚ
  | recordSuccess now | setMode _ now | currentState now => now
  | recordFailure f => f.enter

def run (dr : DrMode) : BreakerCall → DrMode
  | recordSuccess now => dr.recordSuccess now
  | recordFailure f => dr.recordFailureAt f
  | setMode newState now => dr.setMode now newState
  | currentState now => dr.currentState now

/-- What a call records. -/
def entries : BreakerCall → List WindowEntry
  | recordSuccess now => [⟨now, true, 200, 0⟩]
  | recordFailure f => [f.entry]
  | setMode _ _ | currentState _ => []

def isSuccess : BreakerCall → Bool
  | recordSuccess _ => true
  | _ => false

def isFailure : BreakerCall → Bool
  | recordFailure _ => true
  | _ => false

def isSetMode : BreakerCall → Bool
  | setMode .. => true
  | _ => false

/-- A call of `set_mode` with the given state. -/
def sets (state : DrState) : BreakerCall → Bool
  | setMode newState _ => decide (newState = state)
  | _ => false

theorem start_le_stop (call : BreakerCall) : call.start ≤ call.stop := by
  cases call with
  | recordFailure f => exact f.now_le_check.trans f.check_le_enter
  | _ => exact le_rfl

end BreakerCall

/-- A breaker and its history. -/
structure Watched where
  dr : DrMode
  /-- The latest reading of the clock. -/
  clock : ℚ
  /-- Every call that was recorded, in order. -/
  recorded : List WindowEntry := []
  /-- When OPEN was last entered or set. -/
  openedAt : Option ℚ := none

/-- The breaker and its history after a call. -/
def Watched.call (s : Watched) (call : BreakerCall) : Watched where
  dr := call.run s.dr
  clock := call.stop
  recorded := s.recorded ++ call.entries
  openedAt :=
    if call.sets .opened ∨ s.dr.state ≠ .opened ∧ (call.run s.dr).state = .opened then
      some call.stop
    else s.openedAt

/-- Sequences of calls, from a new breaker, under a clock that does not go back. -/
def breakerMachine (cfg : DrConfig) : Machine Watched BreakerCall where
  init s := ∃ clock, s = { dr := { config := cfg }, clock := clock }
  step s call := if s.clock ≤ call.start then some (s.call call) else none

theorem breakerMachine_step {cfg : DrConfig} {s s' : Watched} {call : BreakerCall} :
    (breakerMachine cfg).step s call = some s' ↔ s.clock ≤ call.start ∧ s' = s.call call := by
  simp only [breakerMachine]
  split <;> simp_all [eq_comm]

/-! ## counts over the history -/

/-- A failed call with a status of the server. -/
def WindowEntry.isError (e : WindowEntry) : Bool :=
  !e.success && decide (500 ≤ e.statusCode ∧ e.statusCode < 600)

def WindowEntry.isSlow (cfg : DrConfig) (e : WindowEntry) : Bool :=
  decide (cfg.latencyP99ThresholdMs < e.latencyMs)

/-- The failures behind the last success. -/
def consecutiveFailures (recorded : List WindowEntry) : ℕ :=
  (recorded.rtakeWhile fun e => !e.success).length

/-- How many recorded calls of a kind are inside the window at a time. -/
def countWithin (cfg : DrConfig) (now : ℚ) (kind : WindowEntry → Bool)
    (recorded : List WindowEntry) : ℕ :=
  recorded.countP fun e => decide (now - cfg.slidingWindowSeconds ≤ e.timestamp) && kind e

/-- A counter over the history has reached its threshold. -/
def Trips (cfg : DrConfig) (now : ℚ) (recorded : List WindowEntry) : Prop :=
  cfg.consecutiveFailureThreshold ≤ consecutiveFailures recorded ∨
    cfg.errorCountThreshold ≤ countWithin cfg now WindowEntry.isError recorded ∨
    cfg.latencyCountThreshold ≤ countWithin cfg now (WindowEntry.isSlow cfg) recorded

theorem consecutiveFailures_concat (recorded : List WindowEntry) (e : WindowEntry) :
    consecutiveFailures (recorded ++ [e]) =
      if e.success then 0 else consecutiveFailures recorded + 1 := by
  by_cases h : e.success = true <;> simp [consecutiveFailures, h]

/-! ## what a call does to the breaker -/

namespace DrMode

/-- The breaker with one more success on record. -/
def succeeded (now : ℚ) (dr : DrMode) : DrMode :=
  { dr with
    slidingWindow := dr.slidingWindow ++ [⟨now, true, 200, 0⟩]
    consecutiveFailure := 0 }

/-- The thresholds as `_check_thresholds_locked` looks at them. -/
def OverThreshold (check : ℚ) (dr : DrMode) : Prop :=
  dr.config.consecutiveFailureThreshold ≤ dr.consecutiveFailure ∨
    dr.config.errorCountThreshold ≤ (dr.trimWindow check).errorCount ∨
    dr.config.latencyCountThreshold ≤ (dr.trimWindow check).highLatencyCount

/-- An open breaker that has waited for the full delay is tried again. -/
def Waited (now : ℚ) (dr : DrMode) : Prop :=
  dr.state = .opened ∧ ∃ started, dr.openStartedAt = some started ∧
    dr.config.halfOpenDelaySeconds ≤ now - started

theorem transition_opened {dr : DrMode} (h : dr.state ≠ .opened) (now : ℚ) :
    dr.transition now .opened = { dr with state := .opened, openStartedAt := some now } :=
  if_neg h

end DrMode

namespace BreakerCall

/-- What a call does, with one case for each way through the code. -/
inductive Ran (dr : DrMode) : BreakerCall → DrMode → Prop where
  | recovered (now : ℚ) : dr.state = .halfOpen → Ran dr (recordSuccess now)
      { dr.succeeded now with state := .closed, openStartedAt := none }
  | succeeded (now : ℚ) : dr.state ≠ .halfOpen → Ran dr (recordSuccess now) (dr.succeeded now)
  | reopened (f : Failure) : dr.state = .halfOpen → Ran dr (recordFailure f)
      { dr.failed f.entry with state := .opened, openStartedAt := some f.enter }
  | tripped (f : Failure) {pruned : DrMode} : dr.state = .closed →
      (dr.failed f.entry).OverThreshold f.check →
      pruned = dr.failed f.entry ∨ pruned = (dr.failed f.entry).trimWindow f.check →
      Ran dr (recordFailure f) { pruned with state := .opened, openStartedAt := some f.enter }
  | counted (f : Failure) : dr.state = .closed → ¬ (dr.failed f.entry).OverThreshold f.check →
      Ran dr (recordFailure f) ((dr.failed f.entry).trimWindow f.check)
  | noted (f : Failure) : dr.state = .opened ∨ dr.state = .unknownTier →
      Ran dr (recordFailure f) (dr.failed f.entry)
  | forced (now : ℚ) : Ran dr (setMode .opened now)
      { dr with state := .opened, openStartedAt := some now }
  | set {newState : DrState} (now : ℚ) : newState ≠ .opened →
      Ran dr (setMode newState now) { dr with state := newState }
  | retried (now : ℚ) : dr.Waited now → Ran dr (currentState now) { dr with state := .halfOpen }
  | asked (now : ℚ) : ¬ dr.Waited now → Ran dr (currentState now) dr

variable {dr dr' : DrMode} {call : BreakerCall}

theorem ran_recordSuccess (now : ℚ) (dr : DrMode) :
    Ran dr (.recordSuccess now) (dr.recordSuccess now) := by
  show Ran dr _ (if dr.state = .halfOpen then (dr.succeeded now).transition now .closed
    else dr.succeeded now)
  split
  case isTrue h =>
    have hclosed : (dr.succeeded now).state ≠ .closed := fun hclosed => by
      cases h.symm.trans hclosed
    rw [DrMode.transition, if_neg hclosed]
    exact .recovered now h
  case isFalse h => exact .succeeded now h

theorem ran_checkThresholds (f : Failure) (hclosed : dr.state = .closed) :
    Ran dr (.recordFailure f) ((dr.failed f.entry).checkThresholdsAt f.check f.enter) := by
  have hopen : (dr.failed f.entry).state ≠ .opened := fun hopen => by
    cases hclosed.symm.trans hopen
  have htrim : ((dr.failed f.entry).trimWindow f.check).state ≠ .opened := hopen
  unfold DrMode.checkThresholdsAt
  by_cases hconsecutive : (dr.failed f.entry).config.consecutiveFailureThreshold ≤
      (dr.failed f.entry).consecutiveFailure
  · rw [if_pos hconsecutive, DrMode.transition_opened hopen]
    exact .tripped f hclosed (Or.inl hconsecutive) (Or.inl rfl)
  dsimp only
  split_ifs with herror hslow
  · rw [DrMode.transition_opened htrim]
    exact .tripped f hclosed (Or.inr (Or.inl herror)) (Or.inr rfl)
  · rw [DrMode.transition_opened htrim]
    exact .tripped f hclosed (Or.inr (Or.inr hslow)) (Or.inr rfl)
  · refine .counted f hclosed ?_
    rintro (h | h | h)
    · exact hconsecutive h
    · exact herror h
    · exact hslow h

theorem ran_recordFailure (f : Failure) (dr : DrMode) :
    Ran dr (.recordFailure f) (dr.recordFailureAt f) := by
  unfold DrMode.recordFailureAt
  split
  case h_1 hhalf =>
    have hopen : (dr.failed f.entry).state ≠ .opened := fun hopen => by
      cases hhalf.symm.trans hopen
    rw [DrMode.transition_opened hopen]
    exact .reopened f hhalf
  case h_2 hclosed => exact ran_checkThresholds f hclosed
  case h_3 hhalf hclosed =>
    refine .noted f ?_
    cases hstate : dr.state <;> simp_all

theorem ran_currentState (now : ℚ) (dr : DrMode) :
    Ran dr (.currentState now) (dr.currentState now) := by
  by_cases hw : dr.Waited now
  · obtain ⟨hopen, started, hstarted, hdelay⟩ := id hw
    have htry : dr.currentState now = { dr with state := .halfOpen } := by
      simp [DrMode.currentState, DrMode.tryHalfOpen, DrMode.transition, hopen, hstarted, hdelay]
    rw [htry]
    exact .retried now hw
  · have hstays : dr.currentState now = dr := by
      unfold DrMode.currentState DrMode.tryHalfOpen
      grind [DrMode.Waited]
    rw [hstays]
    exact .asked now hw

theorem ran_run (call : BreakerCall) (dr : DrMode) : Ran dr call (call.run dr) := by
  cases call with
  | recordSuccess now => exact ran_recordSuccess now dr
  | recordFailure f => exact ran_recordFailure f dr
  | setMode newState now =>
    cases newState with
    | opened => exact .forced now
    | _ => exact .set now (by decide)
  | currentState now => exact ran_currentState now dr

/-- What every call leaves of the records: the settings, the counter, and the window with
the new entries, pruned or not. -/
structure Keeps (dr : DrMode) (call : BreakerCall) (dr' : DrMode) : Prop where
  config : dr'.config = dr.config
  failures : dr'.consecutiveFailure =
    if call.isSuccess then 0 else dr.consecutiveFailure + call.entries.length
  window : dr'.slidingWindow = dr.slidingWindow ++ call.entries ∨ ∃ check ≤ call.stop,
    dr'.slidingWindow = (dr.slidingWindow ++ call.entries).dropWhile fun e =>
      decide (e.timestamp < check - dr.config.slidingWindowSeconds)

theorem Ran.keeps (h : Ran dr call dr') : Keeps dr call dr' := by
  cases h with
  | recovered | succeeded | reopened | noted => exact ⟨rfl, rfl, Or.inl rfl⟩
  | tripped f _ _ hpruned =>
    rcases hpruned with rfl | rfl
    · exact ⟨rfl, rfl, Or.inl rfl⟩
    · exact ⟨rfl, rfl, Or.inr ⟨f.check, f.check_le_enter, rfl⟩⟩
  | counted f => exact ⟨rfl, rfl, Or.inr ⟨f.check, f.check_le_enter, rfl⟩⟩
  | forced | set | retried | asked => exact ⟨rfl, rfl, Or.inl (List.append_nil _).symm⟩

/-- An open breaker has its entry time: the old one, or the time of this call. -/
theorem Ran.openStartedAt (h : Ran dr call dr') (hopen : dr'.state = .opened) :
    ((call.sets .opened ∨ dr.state ≠ .opened) ∧ dr'.openStartedAt = some call.stop) ∨
      (call.sets .opened = false ∧ dr.state = .opened ∧ dr'.openStartedAt = dr.openStartedAt) := by
  cases h with
  | recovered | retried => cases hopen
  | succeeded | noted | asked => exact Or.inr ⟨rfl, hopen, rfl⟩
  | reopened f hhalf => exact Or.inl ⟨Or.inr (by simp [hhalf]), rfl⟩
  | tripped f hclosed => exact Or.inl ⟨Or.inr (by simp [hclosed]), rfl⟩
  | counted f hclosed => cases hclosed.symm.trans hopen
  | forced => exact Or.inl ⟨Or.inl rfl, rfl⟩
  | set now hne => exact absurd hopen hne

end BreakerCall

/-! ## the invariant -/

/-- Counter, window and entry time are what the history says. -/
structure Watched.Inv (cfg : DrConfig) (s : Watched) : Prop where
  config : s.dr.config = cfg
  past : ∀ e ∈ s.recorded, e.timestamp ≤ s.clock
  window : Remnant WindowEntry.timestamp (s.clock - cfg.slidingWindowSeconds) s.recorded
    s.dr.slidingWindow
  failures : s.dr.consecutiveFailure = consecutiveFailures s.recorded
  opened : s.dr.state = .opened → ∃ t, s.dr.openStartedAt = some t ∧ s.openedAt = some t

variable {cfg : DrConfig} {s s' : Watched} {call : BreakerCall}

theorem BreakerCall.timestamp_of_mem {e : WindowEntry} (h : e ∈ call.entries) :
    e.timestamp = call.start := by
  cases call <;> simp_all [BreakerCall.entries, BreakerCall.start, Failure.entry]

theorem BreakerCall.consecutiveFailures_entries (call : BreakerCall)
    (recorded : List WindowEntry) :
    consecutiveFailures (recorded ++ call.entries) =
      if call.isSuccess then 0 else consecutiveFailures recorded + call.entries.length := by
  cases call with
  | recordSuccess | recordFailure => exact consecutiveFailures_concat recorded _
  | setMode | currentState => exact congrArg consecutiveFailures (List.append_nil recorded)

/-- The history goes on behind what is left of it. -/
theorem Watched.Inv.append (h : s.Inv cfg) (call : BreakerCall) (hclock : s.clock ≤ call.start) :
    Remnant WindowEntry.timestamp (s.clock - cfg.slidingWindowSeconds) (s.recorded ++ call.entries)
      (s.dr.slidingWindow ++ call.entries) := by
  have hlast : ∀ t, s.clock ≤ t → ∀ e ∈ s.recorded, e.timestamp ≤ t := fun t ht e he =>
    (h.past e he).trans ht
  cases call with
  | recordSuccess now => exact h.window.append (hlast now hclock)
  | recordFailure f => exact h.window.append (hlast f.now hclock)
  | setMode | currentState => simpa [BreakerCall.entries] using h.window

theorem Watched.Inv.init (cfg : DrConfig) (clock : ℚ) :
    Watched.Inv cfg { dr := { config := cfg }, clock := clock } where
  config := rfl
  past := fun _ h => absurd h List.not_mem_nil
  window := Remnant.nil _ _
  failures := rfl
  opened := fun h => by cases h

/-- **One call** keeps the invariant. -/
theorem Watched.Inv.next (h : s.Inv cfg) (hclock : s.clock ≤ call.start) :
    (s.call call).Inv cfg := by
  have hran := call.ran_run s.dr
  have hkeeps := hran.keeps
  have hstop := hclock.trans call.start_le_stop
  refine ⟨hkeeps.config.trans h.config, fun e he => ?_, ?_, ?_, fun hopen => ?_⟩
  · rcases List.mem_append.mp he with he | he
    · exact (h.past e he).trans hstop
    · exact (call.timestamp_of_mem he).trans_le call.start_le_stop
  · have hlatest := (h.append call hclock).mono (sub_le_sub_right hstop cfg.slidingWindowSeconds)
    show Remnant _ _ _ (call.run s.dr).slidingWindow
    rcases hkeeps.window with hwindow | ⟨check, hcheck, hwindow⟩
    · rw [hwindow]
      exact hlatest
    · rw [hwindow, h.config]
      exact hlatest.prune (sub_le_sub_right hcheck cfg.slidingWindowSeconds)
  · show (call.run s.dr).consecutiveFailure = consecutiveFailures (s.recorded ++ call.entries)
    rw [hkeeps.failures, call.consecutiveFailures_entries, h.failures]
  · show ∃ t, (call.run s.dr).openStartedAt = some t ∧ (s.call call).openedAt = some t
    unfold Watched.call
    dsimp only
    rcases hran.openStartedAt hopen with ⟨hnew, hstarted⟩ | ⟨hset, hold, hstarted⟩
    · refine ⟨call.stop, hstarted, if_pos ?_⟩
      exact hnew.imp id fun hstate => ⟨hstate, hopen⟩
    · obtain ⟨t, ht, hopened⟩ := h.opened hold
      refine ⟨t, hstarted.trans ht, (if_neg ?_).trans hopened⟩
      rintro (hsets | ⟨hstate, -⟩)
      · cases hset.symm.trans hsets
      · exact hstate hold

theorem inv_of_reaches (h : (breakerMachine cfg).Reaches Machine.anyStep s) : s.Inv cfg := by
  refine h.invariant (I := Watched.Inv cfg) ?_ ?_
  · rintro s ⟨clock, rfl⟩
    exact Watched.Inv.init cfg clock
  · intro s call s' hs _ hstep
    obtain ⟨hclock, rfl⟩ := breakerMachine_step.mp hstep
    exact hs.next hclock

/-! ## transitions -/

/-- The thresholds of the code are those over the history. -/
theorem Watched.Inv.overThreshold_iff (h : s.Inv cfg) {f : Failure} (hnow : s.clock ≤ f.now) :
    (s.dr.failed f.entry).OverThreshold f.check ↔
      Trips cfg f.check (s.recorded ++ [f.entry]) := by
  have hwindow := (h.append (.recordFailure f) hnow).mono
    (sub_le_sub_right (hnow.trans f.now_le_check) cfg.slidingWindowSeconds)
  have hcount : ∀ kind, ((s.dr.failed f.entry).trimWindow f.check).slidingWindow.countP kind =
      countWithin cfg f.check kind (s.recorded ++ [f.entry]) := by
    intro kind
    have hconfig : (s.dr.failed f.entry).config = cfg := h.config
    unfold DrMode.trimWindow
    rw [hconfig]
    exact hwindow.countP_prune kind
  have hfailures : (s.dr.failed f.entry).consecutiveFailure =
      consecutiveFailures (s.recorded ++ [f.entry]) := by
    rw [consecutiveFailures_concat, ← h.failures]
    rfl
  unfold DrMode.OverThreshold Trips
  rw [hfailures, ← hcount, ← hcount, ← h.config]
  rfl

/-- A failure for which a counter reaches its threshold. -/
def BreakerCall.TripsAt (cfg : DrConfig) (recorded : List WindowEntry) : BreakerCall → Prop
  | recordFailure f => Trips cfg f.check recorded
  | _ => False

/-- What a call other than `set_mode` may do, from each state. -/
structure Lawful (cfg : DrConfig) (s : Watched) (call : BreakerCall) (s' : Watched) : Prop where
  closed : s.dr.state = .closed → (s'.dr.state = .closed ∨ s'.dr.state = .opened) ∧
    (s'.dr.state = .opened ↔ call.TripsAt cfg s'.recorded)
  opened : s.dr.state = .opened → (s'.dr.state = .opened ∨ s'.dr.state = .halfOpen) ∧
    (s'.dr.state = .halfOpen ↔ ∃ now t, call = .currentState now ∧ s.openedAt = some t ∧
      cfg.halfOpenDelaySeconds ≤ now - t)
  halfOpen : s.dr.state = .halfOpen → s'.dr.state ≠ .unknownTier ∧
    (s'.dr.state = .closed ↔ call.isSuccess) ∧ (s'.dr.state = .opened ↔ call.isFailure)
  unknownTier : s.dr.state = .unknownTier → s'.dr.state = .unknownTier

/-- A call that leaves the state alone, and that may. -/
theorem Lawful.of_same (hstate : s'.dr.state = s.dr.state)
    (htrips : s.dr.state = .closed → ¬ call.TripsAt cfg s'.recorded)
    (hwaited : s.dr.state = .opened → ¬ ∃ now t, call = .currentState now ∧ s.openedAt = some t ∧
      cfg.halfOpenDelaySeconds ≤ now - t)
    (hhalf : s.dr.state = .halfOpen → call.isSuccess = false ∧ call.isFailure = false) :
    Lawful cfg s call s' := by
  refine ⟨fun h => ?_, fun h => ?_, fun h => ?_, fun h => hstate.trans h⟩
  · rw [hstate, h]
    exact ⟨Or.inl rfl, iff_of_false (by decide) (htrips h)⟩
  · rw [hstate, h]
    exact ⟨Or.inl rfl, iff_of_false (by decide) (hwaited h)⟩
  · rw [hstate, h, (hhalf h).1, (hhalf h).2]
    decide

/-- The entry time on record is the one of the history. -/
theorem Watched.Inv.waited_iff (h : s.Inv cfg) (hopened : s.dr.state = .opened) {now : ℚ} :
    s.dr.Waited now ↔ ∃ now' t, BreakerCall.currentState now = .currentState now' ∧
      s.openedAt = some t ∧ cfg.halfOpenDelaySeconds ≤ now' - t := by
  obtain ⟨t, hstarted, hat⟩ := h.opened hopened
  constructor
  · rintro ⟨-, t', hstarted', hdelay⟩
    cases hstarted.symm.trans hstarted'
    exact ⟨now, t, rfl, hat, h.config ▸ hdelay⟩
  · rintro ⟨now', t', heq, hat', hdelay⟩
    cases heq
    cases hat.symm.trans hat'
    exact ⟨hopened, t, hstarted, h.config.symm ▸ hdelay⟩

theorem lawful_call (h : s.Inv cfg) (call : BreakerCall) (hclock : s.clock ≤ call.start)
    (hauto : call.isSetMode = false) : Lawful cfg s call (s.call call) := by
  have hran := call.ran_run s.dr
  have hdr : (s.call call).dr = call.run s.dr := rfl
  generalize call.run s.dr = dr' at hran hdr
  cases hran with
  | recovered now hhalf =>
    constructor <;> simp [hdr, hhalf, BreakerCall.isSuccess, BreakerCall.isFailure]
  | succeeded now hhalf =>
    exact .of_same (by rw [hdr]; rfl) (fun _ => id) (fun _ => by simp) fun h => absurd h hhalf
  | reopened f hhalf =>
    constructor <;> simp [hdr, hhalf, BreakerCall.isSuccess, BreakerCall.isFailure]
  | tripped f hclosed hover =>
    have htrips : BreakerCall.TripsAt cfg (s.call (.recordFailure f)).recorded (.recordFailure f) :=
      (h.overThreshold_iff hclock).mp hover
    constructor <;> simp [hdr, hclosed, htrips]
  | counted f hclosed hunder =>
    exact .of_same (by rw [hdr]; rfl)
      (fun _ htrips => hunder ((h.overThreshold_iff hclock).mpr htrips)) (by simp)
      (by simp [hclosed])
  | noted f hstate =>
    refine .of_same (by rw [hdr]; rfl) ?_ (by simp) ?_ <;>
      rcases hstate with hstate | hstate <;> simp [hstate]
  | forced | set => cases hauto
  | retried now hw =>
    obtain ⟨_, t, heq, hat, hdelay⟩ := (h.waited_iff hw.1).mp hw
    cases heq
    constructor <;> simp [hdr, hw.1, hat, hdelay]
  | asked now hw =>
    exact .of_same (congrArg DrMode.state hdr) (fun _ => id)
      (fun hopened hex => hw ((h.waited_iff hopened).mpr hex)) fun _ => ⟨rfl, rfl⟩

/-- **The transitions of the breaker.** After any calls under a clock that does not go
back, the next call other than `set_mode` changes the state only as its law says, and an
open breaker has on record when it was last opened. -/
theorem breaker_transitions (h : (breakerMachine cfg).Reaches Machine.anyStep s)
    (hstep : (breakerMachine cfg).step s call = some s') :
    (s'.dr.state = .opened → ∃ t, s'.dr.openStartedAt = some t ∧ s'.openedAt = some t) ∧
      (call.isSetMode = false → Lawful cfg s call s') := by
  have hs := inv_of_reaches h
  obtain ⟨hclock, rfl⟩ := breakerMachine_step.mp hstep
  exact ⟨(hs.next hclock).opened, lawful_call hs call hclock⟩

/-- A new breaker with the default settings. -/
def newBreaker : Watched := { dr := { config := {} }, clock := 0 }

/-- A quick 503 at the given time. -/
def failureAt (now : ℚ) : BreakerCall :=
  .recordFailure ⟨503, 20, now, now, now, le_rfl, le_rfl⟩

/-- Five failures open the breaker, and a reading of its state thirty seconds later half
opens it. -/
def halfOpened : List BreakerCall := (List.range 5).map (failureAt ↑·) ++ [.currentState 34]

/-- The failure of the call that is then let through opens it again. -/
theorem breaker_transitions_reopened :
    ∃ s s', (breakerMachine {}).run newBreaker halfOpened = some s ∧
      (breakerMachine {}).step s (failureAt 35) = some s' ∧
      s.dr.state = .halfOpen ∧ s'.dr.state = .opened ∧
      (∃ t, s'.dr.openStartedAt = some t ∧ s'.openedAt = some t) ∧
      Lawful {} s (failureAt 35) s' := by
  have hrun : ((breakerMachine {}).run newBreaker halfOpened).map (fun s =>
      (s.dr.state, ((breakerMachine {}).step s (failureAt 35)).map fun s' => s'.dr.state)) =
        some (.halfOpen, some .opened) := by
    decide +kernel
  obtain ⟨s, hs, heq⟩ := Option.map_eq_some_iff.mp hrun
  obtain ⟨hhalf, hnext⟩ := Prod.mk.inj heq
  obtain ⟨s', hs', hopened⟩ := Option.map_eq_some_iff.mp hnext
  obtain ⟨hrecord, hlaw⟩ :=
    breaker_transitions (Machine.reaches_of_run (.init ⟨0, rfl⟩) hs) hs'
  exact ⟨s, s', hs, hs', hhalf, hopened, hrecord hopened, hlaw rfl⟩

/-! ## counts over a longer history -/

section

variable {recorded new : List WindowEntry} {now later : ℚ} {kind : WindowEntry → Bool}

theorem consecutiveFailures_append_le (recorded new : List WindowEntry) :
    consecutiveFailures (recorded ++ new) ≤
      consecutiveFailures recorded + new.countP fun e => !e.success := by
  induction new using List.reverseRecOn with
  | nil => simp
  | append_singleton new e ih =>
    rw [← List.append_assoc, consecutiveFailures_concat, List.countP_append, List.countP_singleton]
    cases e.success <;> simp
    omega

/-- Failures in a row add up. -/
theorem consecutiveFailures_replicate {f : WindowEntry} (hf : f.success = false) (k : ℕ) :
    consecutiveFailures (recorded ++ List.replicate k f) = consecutiveFailures recorded + k := by
  induction k with
  | zero => simp
  | succ k ih =>
    rw [List.replicate_succ', ← List.append_assoc, consecutiveFailures_concat, hf, ih]
    rfl

theorem countWithin_append :
    countWithin cfg now kind (recorded ++ new) =
      countWithin cfg now kind recorded + countWithin cfg now kind new := List.countP_append

/-- With time, entries leave the window. -/
theorem countWithin_anti (h : now ≤ later) :
    countWithin cfg later kind recorded ≤ countWithin cfg now kind recorded := by
  refine List.countP_mono_left fun e _ he => ?_
  rw [Bool.and_eq_true, decide_eq_true_iff] at he ⊢
  exact ⟨(sub_le_sub_right h _).trans he.1, he.2⟩

/-- A window of negative length is empty. -/
theorem countWithin_eq_zero (hwindow : cfg.slidingWindowSeconds < 0)
    (hpast : ∀ e ∈ recorded, e.timestamp ≤ now) : countWithin cfg now kind recorded = 0 := by
  refine List.countP_eq_zero.mpr fun e he => ?_
  have hold : ¬ now ≤ e.timestamp + cfg.slidingWindowSeconds := by linarith [hpast e he]
  simp [hold]

/-- Entries of the present moment are in the window. -/
theorem countWithin_replicate (hwindow : 0 ≤ cfg.slidingWindowSeconds) {f : WindowEntry}
    (hnow : f.timestamp = now) (hkind : kind f = true) (k : ℕ) :
    countWithin cfg now kind (List.replicate k f) = k := by
  have hin : now - cfg.slidingWindowSeconds ≤ f.timestamp := by
    rw [hnow]
    exact sub_le_self now hwindow
  unfold countWithin
  rw [List.countP_replicate, if_pos]
  rw [decide_eq_true hin, hkind, Bool.true_and]

end

/-! ## a fresh start -/

/-- How many failures a call records. -/
def BreakerCall.failures (call : BreakerCall) : ℕ := if call.isFailure then 1 else 0

/-- A stay in CLOSED from `s` on, with the failures recorded in it. -/
inductive Stay (cfg : DrConfig) (s : Watched) : ℕ → Watched → Prop where
  | here : Stay cfg s 0 s
  | next {n : ℕ} {s₁ s₂ : Watched} {call : BreakerCall} : Stay cfg s n s₁ →
      (breakerMachine cfg).step s₁ call = some s₂ → s₂.dr.state = .closed →
      Stay cfg s (n + call.failures) s₂

def minThreshold (cfg : DrConfig) : ℤ :=
  min cfg.consecutiveFailureThreshold (min cfg.errorCountThreshold cfg.latencyCountThreshold)

/-- A stay in CLOSED ends in OPEN, other than by `set_mode`, only after as many failures as
the least threshold. -/
def FreshStart (cfg : DrConfig) (s : Watched) : Prop :=
  ∀ n s₁ call s₂, Stay cfg s n s₁ → (breakerMachine cfg).step s₁ call = some s₂ →
    call.isSetMode = false → s₂.dr.state = .opened →
    minThreshold cfg ≤ ((n + call.failures : ℕ) : ℤ)

/-- The history leaves room for the least threshold: in the row of failures, and in the
window, where successes must not count as slow. With a least threshold of one there is
nothing to forget. -/
def Forgotten (cfg : DrConfig) (s : Watched) : Prop :=
  minThreshold cfg ≤ 1 ∨
    consecutiveFailures s.recorded + minThreshold cfg ≤ cfg.consecutiveFailureThreshold ∧
      (0 ≤ cfg.slidingWindowSeconds →
        countWithin cfg s.clock WindowEntry.isError s.recorded + minThreshold cfg ≤
          cfg.errorCountThreshold ∧
        0 ≤ cfg.latencyP99ThresholdMs ∧
        countWithin cfg s.clock (WindowEntry.isSlow cfg) s.recorded + minThreshold cfg ≤
          cfg.latencyCountThreshold)

/-- What a stay adds to the history. -/
structure Since (s : Watched) (n : ℕ) (s₁ : Watched) : Prop where
  clock : s.clock ≤ s₁.clock
  recorded : ∃ new, s₁.recorded = s.recorded ++ new ∧ (new.countP fun e => !e.success) = n ∧
    ∀ e ∈ new, e.success = true → e.latencyMs = 0

theorem BreakerCall.countP_entries (call : BreakerCall) :
    (call.entries.countP fun e => !e.success) = call.failures := by
  cases call <;> rfl

theorem BreakerCall.latencyMs_of_success {e : WindowEntry} (h : e ∈ call.entries)
    (hsuccess : e.success = true) : e.latencyMs = 0 := by
  cases call <;> simp_all [BreakerCall.entries, Failure.entry]

variable {n : ℕ} {s₁ : Watched}

theorem Since.next (h : Since s n s₁) (hclock : s₁.clock ≤ call.start) :
    Since s (n + call.failures) (s₁.call call) := by
  obtain ⟨new, hnew, hcount, hlatency⟩ := h.recorded
  refine ⟨h.clock.trans (hclock.trans call.start_le_stop), new ++ call.entries, ?_, ?_, ?_⟩
  · rw [← List.append_assoc, ← hnew]
    rfl
  · rw [List.countP_append, hcount, call.countP_entries]
  · intro e he hsuccess
    rcases List.mem_append.mp he with he | he
    · exact hlatency e he hsuccess
    · exact BreakerCall.latencyMs_of_success he hsuccess

theorem Stay.since (h : Stay cfg s n s₁) (hs : s.Inv cfg) (hclosed : s.dr.state = .closed) :
    s₁.Inv cfg ∧ s₁.dr.state = .closed ∧ Since s n s₁ := by
  induction h with
  | here => exact ⟨hs, hclosed, le_rfl, [], (List.append_nil _).symm, rfl, by simp⟩
  | next _ hstep hstate ih =>
    obtain ⟨hclock, rfl⟩ := breakerMachine_step.mp hstep
    exact ⟨ih.1.next hclock, hstate, ih.2.2.next hclock⟩

variable {new : List WindowEntry} {kind : WindowEntry → Bool}

/-- Of what a stay adds, only its failures can count. -/
theorem countWithin_le_failures {now : ℚ} (h : ∀ e ∈ new, kind e = true → e.success = false) :
    countWithin cfg now kind new ≤ new.countP fun e => !e.success := by
  refine List.countP_mono_left fun e he hin => ?_
  rw [h e he (Bool.and_eq_true_iff.mp hin).2]
  rfl

/-- A count that had room for the least threshold has not reached its own. -/
theorem countWithin_lt {s₂ : Watched} {check : ℚ} {threshold : ℤ} (hsince : Since s n s₂)
    (hclock : s.clock ≤ check) (hpast : ∀ e ∈ s₂.recorded, e.timestamp ≤ check)
    (hpos : 0 < threshold) (hkind : ∀ e : WindowEntry, (e.success = true → e.latencyMs = 0) →
      0 ≤ cfg.slidingWindowSeconds → kind e = true → e.success = false)
    (hroom : 0 ≤ cfg.slidingWindowSeconds →
      countWithin cfg s.clock kind s.recorded + n < threshold) :
    countWithin cfg check kind s₂.recorded < threshold := by
  rcases lt_or_ge cfg.slidingWindowSeconds 0 with hneg | hwindow
  · rw [countWithin_eq_zero hneg hpast]
    exact hpos
  · obtain ⟨new, hnew, hcount, hlatency⟩ := hsince.recorded
    have hold : countWithin cfg check kind s.recorded ≤ countWithin cfg s.clock kind s.recorded :=
      countWithin_anti hclock
    have hadded : countWithin cfg check kind new ≤ new.countP fun e => !e.success :=
      countWithin_le_failures fun e he => hkind e (hlatency e he) hwindow
    have hlt := hroom hwindow
    rw [hnew, countWithin_append]
    omega

theorem freshStart_of_forgotten (hs : s.Inv cfg) (hclosed : s.dr.state = .closed)
    (h : Forgotten cfg s) : FreshStart cfg s := by
  intro n s₁ call s₂ hstay hstep hauto hopen
  obtain ⟨hinv, hstate, hsince⟩ := hstay.since hs hclosed
  obtain ⟨hclock, rfl⟩ := breakerMachine_step.mp hstep
  have htrips := ((lawful_call hinv call hclock hauto).closed hstate).2.mp hopen
  cases call with
  | recordSuccess now => exact htrips.elim
  | setMode newState now => cases hauto
  | currentState now => exact htrips.elim
  | recordFailure f =>
    rcases h with hone | ⟨hfailures, hwindow⟩
    · refine hone.trans ?_
      simp [BreakerCall.failures, BreakerCall.isFailure]
    by_contra hlt
    have hsince₂ := hsince.next hclock
    have hcheck : s₁.clock ≤ f.check := hclock.trans f.now_le_check
    have hsoon : s.clock ≤ f.check := hsince.clock.trans hcheck
    have hpast : ∀ e ∈ s₁.recorded ++ [f.entry], e.timestamp ≤ f.check := by
      intro e he
      rcases List.mem_append.mp he with he | he
      · exact (hinv.past e he).trans hcheck
      · rw [List.mem_singleton.mp he]
        exact f.now_le_check
    have hleast : minThreshold cfg ≤ cfg.errorCountThreshold ∧
        minThreshold cfg ≤ cfg.latencyCountThreshold := by simp [minThreshold]
    rcases htrips with hconsecutive | herror | hslow
    · obtain ⟨new, hnew, hcount, -⟩ := hsince₂.recorded
      have hle := consecutiveFailures_append_le s.recorded new
      rw [← hnew] at hle
      omega
    · refine absurd herror (not_le.mpr (countWithin_lt hsince₂ hsoon hpast (by omega) ?_ ?_))
      · intro e _ _ he
        have hfailed : (!e.success) = true := (Bool.and_eq_true_iff.mp he).1
        simpa using hfailed
      · intro hnonneg
        have := (hwindow hnonneg).1
        omega
    · refine absurd hslow (not_le.mpr (countWithin_lt hsince₂ hsoon hpast (by omega) ?_ ?_))
      · intro e hlatency hnonneg he
        -- a success has no latency, and that is not over the threshold
        by_contra hsuccess
        have hzero := hlatency (by simpa using hsuccess)
        have hlow := (hwindow hnonneg).2.1
        rw [WindowEntry.isSlow, decide_eq_true_iff, hzero] at he
        exact absurd he (not_lt.mpr hlow)
      · intro hnonneg
        have := (hwindow hnonneg).2.2
        omega

/-- A failure of the server at `now`, slower than allowed. -/
def badCall (cfg : DrConfig) (now : ℚ) : Failure :=
  ⟨500, cfg.latencyP99ThresholdMs + 1, now, now, now, le_rfl, le_rfl⟩

/-- A stay that is still at its first moment. -/
structure Moment (cfg : DrConfig) (s : Watched) (n : ℕ) (new : List WindowEntry) (s₁ : Watched) :
    Prop where
  stay : Stay cfg s n s₁
  clock : s₁.clock = s.clock
  recorded : s₁.recorded = s.recorded ++ new

theorem Moment.next (h : Moment cfg s n new s₁) (call : BreakerCall)
    (hstart : call.start = s.clock) (hstop : call.stop = s.clock)
    (hstate : (s₁.call call).dr.state = .closed) :
    Moment cfg s (n + call.failures) (new ++ call.entries) (s₁.call call) := by
  refine ⟨h.stay.next (breakerMachine_step.mpr ⟨?_, rfl⟩) hstate, hstop, ?_⟩
  · rw [h.clock, hstart]
  · rw [← List.append_assoc, ← h.recorded]
    rfl

/-- A breaker with a fresh start takes a failure in the first moment, unless it comes to the
least threshold, without reaching one. -/
theorem FreshStart.not_trips (h : FreshStart cfg s) (hs : s.Inv cfg)
    (hclosed : s.dr.state = .closed) (hmoment : Moment cfg s n new s₁)
    (hlt : ((n + 1 : ℕ) : ℤ) < minThreshold cfg) :
    ¬ Trips cfg s.clock (s.recorded ++ (new ++ [(badCall cfg s.clock).entry])) ∧
      Moment cfg s (n + 1) (new ++ [(badCall cfg s.clock).entry])
        (s₁.call (.recordFailure (badCall cfg s.clock))) := by
  obtain ⟨hinv, hstate, -⟩ := hmoment.stay.since hs hclosed
  have hclock : s₁.clock ≤ (badCall cfg s.clock).now := hmoment.clock.le
  have hlaw := (lawful_call hinv (.recordFailure _) hclock rfl).closed hstate
  have hopened : (s₁.call (.recordFailure (badCall cfg s.clock))).dr.state ≠ .opened := by
    intro hopened
    have hle := h n s₁ (.recordFailure (badCall cfg s.clock)) _ hmoment.stay
      (breakerMachine_step.mpr ⟨hclock, rfl⟩) rfl hopened
    exact absurd hle (not_le.mpr hlt)
  constructor
  · intro htrips
    refine hopened (hlaw.2.mpr ?_)
    rw [← List.append_assoc, ← hmoment.recorded] at htrips
    exact htrips
  · exact hmoment.next _ rfl rfl (hlaw.1.resolve_right hopened)

/-- Failures in the first moment, as long as they are fewer than the least threshold. -/
theorem FreshStart.moment (h : FreshStart cfg s) (hs : s.Inv cfg) (hclosed : s.dr.state = .closed)
    (k : ℕ) (hlt : (k : ℤ) < minThreshold cfg) :
    ∃ s₁, Moment cfg s k (List.replicate k (badCall cfg s.clock).entry) s₁ := by
  induction k with
  | zero => exact ⟨s, .here, rfl, (List.append_nil _).symm⟩
  | succ k ih =>
    obtain ⟨s₁, hmoment⟩ := ih (by omega)
    rw [List.replicate_succ']
    exact ⟨_, (h.not_trips hs hclosed hmoment hlt).2⟩

/-- Successes in the first moment. -/
theorem moment_successes (hs : s.Inv cfg) (hclosed : s.dr.state = .closed) (k : ℕ) :
    ∃ s₁, Moment cfg s 0 (List.replicate k ⟨s.clock, true, 200, 0⟩) s₁ := by
  induction k with
  | zero => exact ⟨s, .here, rfl, (List.append_nil _).symm⟩
  | succ k ih =>
    obtain ⟨s₁, hmoment⟩ := ih
    obtain ⟨hinv, hstate, -⟩ := hmoment.stay.since hs hclosed
    have hlaw := (lawful_call hinv (.recordSuccess s.clock) hmoment.clock.le rfl).closed hstate
    rw [List.replicate_succ']
    exact ⟨_, hmoment.next (.recordSuccess s.clock) rfl rfl (hlaw.1.resolve_right hlaw.2.mp)⟩

theorem forgotten_of_freshStart (hs : s.Inv cfg) (hclosed : s.dr.state = .closed)
    (h : FreshStart cfg s) : Forgotten cfg s := by
  rcases le_or_gt (minThreshold cfg) 1 with hone | hmany
  · exact Or.inl hone
  refine Or.inr ?_
  -- all failures but one of the least threshold, and the last of them does not trip
  obtain ⟨k, hk⟩ : ∃ k : ℕ, minThreshold cfg = k + 2 := ⟨(minThreshold cfg - 2).toNat, by omega⟩
  obtain ⟨s₁, hmoment⟩ := h.moment hs hclosed k (by omega)
  obtain ⟨hquiet, -⟩ := h.not_trips hs hclosed hmoment (by omega)
  rw [← List.replicate_succ'] at hquiet
  unfold Trips at hquiet
  rw [not_or, not_or, not_le, not_le, not_le,
    consecutiveFailures_replicate rfl, countWithin_append, countWithin_append] at hquiet
  obtain ⟨hconsecutive, herror, hslow⟩ := hquiet
  refine ⟨by omega, fun hwindow => ?_⟩
  have hbad : (badCall cfg s.clock).entry.isSlow cfg = true := decide_eq_true (lt_add_one _)
  have hnow : (badCall cfg s.clock).entry.timestamp = s.clock := rfl
  rw [countWithin_replicate hwindow hnow rfl] at herror
  rw [countWithin_replicate hwindow hnow hbad] at hslow
  refine ⟨by omega, ?_, by omega⟩
  -- were a success slow, enough of them and one failure would trip
  by_contra hneg
  have hsuccess : WindowEntry.isSlow cfg ⟨s.clock, true, 200, 0⟩ = true :=
    decide_eq_true (not_le.mp hneg)
  obtain ⟨s₂, hmany'⟩ := moment_successes hs hclosed cfg.latencyCountThreshold.toNat
  refine (h.not_trips hs hclosed hmany' (by omega)).1 (Or.inr (Or.inr ?_))
  have hnow' : (⟨s.clock, true, 200, 0⟩ : WindowEntry).timestamp = s.clock := rfl
  rw [countWithin_append, countWithin_append, countWithin_replicate hwindow hnow' hsuccess]
  omega

/-- The call brings the breaker into CLOSED: a recovery, or `set_mode`. -/
def EntersClosed (s₀ : Watched) (call : BreakerCall) (s : Watched) : Prop :=
  s.dr.state = .closed ∧ (s₀.dr.state ≠ .closed ∨ call.sets .closed)

/-- **Fresh start.** After any history, a breaker that has just entered CLOSED has a fresh
start if and only if its history leaves room for the least threshold. -/
theorem fresh_start_iff {s₀ : Watched} (h : (breakerMachine cfg).Reaches Machine.anyStep s₀)
    (hstep : (breakerMachine cfg).step s₀ call = some s) (henters : EntersClosed s₀ call s) :
    FreshStart cfg s ↔ Forgotten cfg s := by
  have hs : s.Inv cfg := inv_of_reaches (h.step trivial hstep)
  exact ⟨forgotten_of_freshStart hs henters.1, freshStart_of_forgotten hs henters.1⟩

/-! ## runs -/

/-- A failure of 100 seconds ago is no longer in the window when the operator closes the
breaker. -/
theorem fresh_start_after_pause :
    FreshStart {} ((newBreaker.call (failureAt 0)).call (.setMode .closed 100)) := by
  have hfirst : (breakerMachine {}).step newBreaker (failureAt 0) =
      some (newBreaker.call (failureAt 0)) := breakerMachine_step.mpr ⟨le_refl (0 : ℚ), rfl⟩
  have hclose : (breakerMachine {}).step (newBreaker.call (failureAt 0)) (.setMode .closed 100) =
      some ((newBreaker.call (failureAt 0)).call (.setMode .closed 100)) :=
    breakerMachine_step.mpr ⟨show (0 : ℚ) ≤ 100 by decide +kernel, rfl⟩
  have hinit : (breakerMachine {}).Reaches Machine.anyStep newBreaker := .init ⟨0, rfl⟩
  refine (fresh_start_iff (hinit.step trivial hfirst) hclose ⟨rfl, Or.inr rfl⟩).mpr (Or.inr ?_)
  decide +kernel

/-- Five failures open the breaker; half a minute later it is tried, and recovers. -/
def recovery : List BreakerCall :=
  List.replicate 5 (failureAt 0) ++ [.currentState 30, .recordSuccess 30]

/-- After four failures the operator closes the breaker. -/
def override : List BreakerCall := List.replicate 4 (failureAt 0) ++ [.setMode .closed 30]

/-- After the calls the breaker is closed, and the next failure opens it. -/
def ReopensAtOnce (calls : List BreakerCall) : Prop :=
  ∃ s, (breakerMachine {}).run newBreaker calls = some s ∧ s.dr.state = .closed ∧
    (s.call (failureAt 31)).dr.state = .opened ∧ minThreshold {} = 3 ∧ ¬ FreshStart {} s

theorem reopensAtOnce_of_run {calls : List BreakerCall}
    (hcalls : ((breakerMachine {}).run newBreaker calls).map (fun s =>
      (s.dr.state, (s.call (failureAt 31)).dr.state, decide (s.clock ≤ 31))) =
        some (.closed, .opened, true)) :
    ReopensAtOnce calls := by
  obtain ⟨s, hrun, hs⟩ := Option.map_eq_some_iff.mp hcalls
  obtain ⟨hclosed, hs'⟩ := Prod.mk.inj hs
  obtain ⟨hopened, hclock⟩ := Prod.mk.inj hs'
  refine ⟨s, hrun, hclosed, hopened, rfl, fun hfresh => ?_⟩
  have hle := hfresh 0 s (failureAt 31) _ .here
    (breakerMachine_step.mpr ⟨of_decide_eq_true hclock, rfl⟩) rfl hopened
  exact absurd hle (by decide)

/-- The first one finds the old failures in the window, the second one in the counter as
well. -/
theorem reopened_at_once : ReopensAtOnce recovery ∧ ReopensAtOnce override :=
  ⟨reopensAtOnce_of_run (by decide +kernel), reopensAtOnce_of_run (by decide +kernel)⟩

end MctraderData.Tier
