import Mathlib.Algebra.Order.Ring.Rat
import Mathlib.Data.List.DropRight
import Mathlib.Data.List.Infix
import MctraderData.Lib.Raising
import MctraderData.Nas.Definitions

/-!
# mctrader-data — the NAS-unreachable SOP

Model of `ops/nas_unreachable_sop.py`. A call of `run_once` reads the clock and pings the NAS.
While the NAS cannot be reached it looks at the backlog of the retry queue; when it can, it
drains the queue. The runner keeps its state, the time of the first ping that failed, a flag
and a counter; `sop_state` says what these are in terms of the calls so far, as long as no
call raises.

Every call of the queue may raise, and `run_once` catches nothing. A drain that raises leaves
the runner in the outage that is over (`drain_error_keeps_outage`).

The gauge and the log lines are left out, apart from the `depth()` that they ask for.
-/

namespace MctraderData.Ops

open Lib (Raises)

/-- What `head_object` does in `_ping_nas`. -/
inductive PingOutcome where
  | returned
  | clientError
  | endpointConnectionError
  | otherException
deriving DecidableEq, Repr

/-- `_ping_nas`: a client error is an answer of the NAS. -/
def pingNas : PingOutcome → Bool
  | .returned | .clientError => true
  | .endpointConnectionError | .otherException => false

inductive SopState where
  | autoResume
  | thresholdBreached
  | manualGate
deriving DecidableEq, Repr

structure SopConfig where
  thresholdSegments : Int := 1000
  thresholdBytes : Int := 10 * 1024 ^ 3
  manualGateAfterHours : Int := 24

/-- What one call reads: the clock, the ping and the answers of the queue. -/
structure SopReadings where
  now : ℚ
  ping : PingOutcome
  /-- `depth()`, which is `depth(include_quarantined=True)` -/
  depth : Except Nas.Exn Nat
  /-- `_total_bytes(include_quarantined=True)` -/
  totalBytes : Except Nas.Exn Nat := .ok 0
  /-- `drain(uploader)` -/
  drain : Except Nas.Exn Unit := .ok ()
  /-- `depth()` for the log line and the gauge, after the state is set -/
  gauge : Except Nas.Exn Nat := depth

structure SopRunner where
  config : SopConfig
  state : SopState := .autoResume
  unreachableSince : Option ℚ := none
  graceExtended : Bool := false
  graceExtensionId : Nat := 0

namespace SopRunner

/-- `_check_threshold_breached`: the bytes are asked for only below the first threshold. -/
def checkThresholdBreached (cfg : SopConfig) (t : SopReadings) : Except Nas.Exn Bool := do
  if cfg.thresholdSegments ≤ (← t.depth) then pure true
  else pure (decide (cfg.thresholdBytes ≤ (← t.totalBytes)))

/-- `_emit_grace_extension` -/
def emitGraceExtension (r : SopRunner) : SopRunner :=
  if r.graceExtended then r
  else { r with graceExtensionId := r.graceExtensionId + 1, graceExtended := true }

/-- The drain of a call that reaches the NAS; after the manual gate there is none. -/
def drainQueue (r : SopRunner) (t : SopReadings) : Except Nas.Exn Unit :=
  if r.state = .thresholdBreached ∨ r.state = .autoResume then do
    if 0 < (← t.depth) then t.drain else pure ()
  else pure ()

/-- The first failed ping starts the clock and asks for more grace. -/
def enterUnreachable (r : SopRunner) (now : ℚ) : SopRunner × ℚ :=
  match r.unreachableSince with
  | some since => (r, since)
  | none => ({ r with unreachableSince := some now }.emitGraceExtension, now)

/-- The state is set, and returned unless the gauge cannot be read. -/
def settle (r : SopRunner) (t : SopReadings) : Except Nas.Exn SopState × SopRunner :=
  (t.gauge.map fun _ => r.state, r)

/-- `run_once`: what it returns or raises, and the runner it leaves. -/
def runOnce (r : SopRunner) (t : SopReadings) : Except Nas.Exn SopState × SopRunner :=
  if pingNas t.ping then
    match r.drainQueue t with
    | .error e => (.error e, r)
    | .ok () =>
      { r with state := .autoResume, unreachableSince := none, graceExtended := false }.settle t
  else
    let (r, since) := r.enterUnreachable t.now
    let unreachableDurationHours := (t.now - since) / 3600
    match checkThresholdBreached r.config t with
    | .error e => (.error e, r)
    | .ok breached =>
      let r := if breached then { r with state := .thresholdBreached } else r
      if r.config.manualGateAfterHours ≤ unreachableDurationHours then
        { r with state := .manualGate }.settle t
      else r.settle t

/-- A call that does not reach the NAS: the gate counts more than the backlog. -/
theorem runOnce_of_enter {r r' : SopRunner} {t : SopReadings} {since : ℚ} {breached : Bool}
    (hping : ¬ pingNas t.ping = true) (henter : r.enterUnreachable t.now = (r', since))
    (hcheck : checkThresholdBreached r'.config t = .ok breached) :
    (r.runOnce t).2 = { r' with
      state :=
        if r'.config.manualGateAfterHours ≤ (t.now - since) / 3600 then .manualGate
        else if breached then .thresholdBreached
        else r'.state } := by
  unfold runOnce
  rw [if_neg hping, henter]
  dsimp only
  rw [hcheck]
  dsimp only
  split_ifs <;> rfl

/-- The runner after some calls, whether they returned or raised. -/
def after (cfg : SopConfig) (calls : List SopReadings) : SopRunner :=
  calls.foldl (fun r t => (r.runOnce t).2) { config := cfg }

theorem after_concat (cfg : SopConfig) (calls : List SopReadings) (t : SopReadings) :
    after cfg (calls ++ [t]) = ((after cfg calls).runOnce t).2 := by
  simp [after]

end SopRunner

open SopRunner

/-! ## The calls so far -/

def SopReadings.unreachable (t : SopReadings) : Bool := !pingNas t.ping

/-- The call finds the backlog at a threshold. -/
def SopReadings.breaches (cfg : SopConfig) (t : SopReadings) : Bool :=
  (checkThresholdBreached cfg t).toOption.getD false

/-- The calls of the unreachable period that goes on. -/
def unreachablePeriod (calls : List SopReadings) : List SopReadings :=
  calls.rtakeWhile SopReadings.unreachable

/-- How many unreachable periods begin, if one goes on before or not. -/
def periodsBegun : Bool → List SopReadings → Nat
  | _, [] => 0
  | down, t :: rest =>
    (if t.unreachable && !down then 1 else 0) + periodsBegun t.unreachable rest

/-- The state that the calls of a period ask for. -/
def sopStateOf (cfg : SopConfig) (period : List SopReadings) : SopState :=
  match period.head?, period.getLast? with
  | some first, some last =>
    if cfg.manualGateAfterHours ≤ (last.now - first.now) / 3600 then .manualGate
    else if period.any (SopReadings.breaches cfg) then .thresholdBreached
    else .autoResume
  | _, _ => .autoResume

/-- The time of the first call of a period to which `t` is added. -/
def startOf (period : List SopReadings) (t : SopReadings) : ℚ :=
  (period.head?.map SopReadings.now).getD t.now

theorem periodsBegun_concat (down : Bool) (calls : List SopReadings) (t : SopReadings) :
    periodsBegun down (calls ++ [t]) = periodsBegun down calls +
      if t.unreachable && !(calls.getLast?.map SopReadings.unreachable).getD down then 1
      else 0 := by
  induction calls generalizing down with
  | nil => simp [periodsBegun]
  | cons first rest ih =>
    -- the last call of `rest`, if it has one, is the last of all
    have hlast : ((first :: rest).getLast?.map SopReadings.unreachable).getD down =
        (rest.getLast?.map SopReadings.unreachable).getD first.unreachable := by
      cases rest with
      | nil => rfl
      | cons second rest => simp [List.getLast?_cons]
    rw [List.cons_append, periodsBegun, ih, hlast, periodsBegun]
    omega

/-- A period goes on if and only if the last call did not reach the NAS. -/
theorem head?_unreachablePeriod_isSome (calls : List SopReadings) :
    (unreachablePeriod calls).head?.isSome =
      (calls.getLast?.map SopReadings.unreachable).getD false := by
  induction calls using List.reverseRecOn with
  | nil => rfl
  | append_singleton calls t ih =>
    unfold unreachablePeriod
    cases ht : t.unreachable <;> simp [ht]

/-- What the runner stores, in terms of the calls so far. -/
structure Follows (cfg : SopConfig) (calls : List SopReadings) (r : SopRunner) : Prop where
  config : r.config = cfg
  since : r.unreachableSince = (unreachablePeriod calls).head?.map SopReadings.now
  extended : r.graceExtended = r.unreachableSince.isSome
  id : r.graceExtensionId = periodsBegun false calls
  state : r.state = sopStateOf cfg (unreachablePeriod calls)

section

variable {cfg : SopConfig} {calls : List SopReadings} {r : SopRunner} {t : SopReadings}

theorem Follows.reachable (h : Follows cfg calls r) (ht : t.unreachable = false)
    (hquiet : ¬ Raises (r.runOnce t).1) : Follows cfg (calls ++ [t]) (r.runOnce t).2 := by
  have hping : pingNas t.ping = true := by simpa [SopReadings.unreachable] using ht
  have hperiod : unreachablePeriod (calls ++ [t]) = [] := by
    simp [unreachablePeriod, ht]
  unfold runOnce at hquiet ⊢
  rw [if_pos hping] at hquiet ⊢
  -- a drain that raises would leave the runner as it is
  cases hdrain : r.drainQueue t with
  | error e =>
    rw [hdrain] at hquiet
    exact absurd ⟨e, rfl⟩ hquiet
  | ok _ => ?_
  refine ⟨h.config, ?_, rfl, ?_, ?_⟩
  · rw [hperiod]
    rfl
  · rw [periodsBegun_concat, ht]
    exact h.id
  · rw [hperiod]
    rfl

/-- After the first lines of a call that does not reach the NAS. -/
theorem Follows.enter (h : Follows cfg calls r) (ht : t.unreachable = true) :
    ∃ r', r.enterUnreachable t.now = (r', startOf (unreachablePeriod calls) t) ∧
      r'.config = cfg ∧ r'.state = r.state ∧ r'.graceExtended = r'.unreachableSince.isSome ∧
      r'.unreachableSince = some (startOf (unreachablePeriod calls) t) ∧
      r'.graceExtensionId = periodsBegun false (calls ++ [t]) := by
  have hgoing := head?_unreachablePeriod_isSome calls
  unfold startOf enterUnreachable
  rw [periodsBegun_concat, ht, ← hgoing, ← h.since]
  cases hsince : r.unreachableSince with
  | some since =>
    have hsome : (unreachablePeriod calls).head?.isSome = true := by
      rw [← Option.isSome_map, ← h.since, hsince]
      rfl
    refine ⟨r, rfl, h.config, rfl, h.extended, hsince, ?_⟩
    rw [hsome]
    exact h.id
  | none =>
    have hnone : (unreachablePeriod calls).head?.isSome = false := by
      rw [← Option.isSome_map, ← h.since, hsince]
      rfl
    have hflag : r.graceExtended = false := by
      rw [h.extended, hsince]
      rfl
    refine ⟨_, rfl, ?_⟩
    rw [emitGraceExtension, if_neg (Bool.eq_false_iff.mp hflag), hnone]
    exact ⟨h.config, rfl, rfl, rfl, congrArg (· + 1) h.id⟩

theorem sopStateOf_concat (cfg : SopConfig) (period : List SopReadings) (t : SopReadings) :
    sopStateOf cfg (period ++ [t]) =
      if cfg.manualGateAfterHours ≤ (t.now - startOf period t) / 3600 then .manualGate
      else if period.any (SopReadings.breaches cfg) || t.breaches cfg then
        .thresholdBreached
      else .autoResume := by
  unfold sopStateOf startOf
  cases period with
  | nil => simp
  | cons first rest =>
    rw [List.getLast?_concat, List.any_append]
    simp

/-- Before the gate, a period has only its breaches behind it. -/
theorem sopStateOf_of_short {period : List SopReadings}
    (hclock : ∀ t' ∈ period, t'.now ≤ t.now)
    (hshort : ¬ cfg.manualGateAfterHours ≤ (t.now - startOf period t) / 3600) :
    sopStateOf cfg period =
      if period.any (SopReadings.breaches cfg) then .thresholdBreached else .autoResume := by
  cases period with
  | nil => rfl
  | cons first rest =>
    obtain ⟨last, hlast⟩ : ∃ last, (first :: rest).getLast? = some last :=
      ⟨_, List.getLast?_eq_getLast_of_ne_nil (List.cons_ne_nil _ _)⟩
    have hle : (last.now - first.now) / 3600 ≤ (t.now - first.now) / 3600 :=
      div_le_div_of_nonneg_right (sub_le_sub_right (hclock last (List.mem_of_getLast? hlast)) _)
        (by decide +kernel)
    unfold sopStateOf
    rw [hlast]
    exact if_neg fun hgate => hshort (hgate.trans hle)

/-- A call that does not reach the NAS and does not raise has looked at the backlog. -/
theorem checkThresholdBreached_of_quiet {r' : SopRunner} {since : ℚ} (ht : t.unreachable = true)
    (henter : r.enterUnreachable t.now = (r', since)) (hquiet : ¬ Raises (r.runOnce t).1) :
    checkThresholdBreached r'.config t = .ok (t.breaches r'.config) := by
  have hping : ¬ pingNas t.ping = true := by simpa [SopReadings.unreachable] using ht
  unfold runOnce at hquiet
  rw [if_neg hping, henter] at hquiet
  dsimp only at hquiet
  unfold SopReadings.breaches
  cases hcheck : checkThresholdBreached r'.config t with
  | error e =>
    rw [hcheck] at hquiet
    exact absurd ⟨e, rfl⟩ hquiet
  | ok breached => rfl

theorem Follows.unreachable (h : Follows cfg calls r) (ht : t.unreachable = true)
    (hquiet : ¬ Raises (r.runOnce t).1) (hclock : ∀ t' ∈ calls, t'.now ≤ t.now) :
    Follows cfg (calls ++ [t]) (r.runOnce t).2 := by
  have hping : ¬ pingNas t.ping = true := by simpa [SopReadings.unreachable] using ht
  have hperiod : unreachablePeriod (calls ++ [t]) = unreachablePeriod calls ++ [t] := by
    simp [unreachablePeriod, ht]
  have hpast : ∀ t' ∈ unreachablePeriod calls, t'.now ≤ t.now :=
    fun t' ht' => hclock t' ((List.rtakeWhile_suffix _ _).subset ht')
  obtain ⟨r', henter, hconfig, hstate, hflag, hsince, hid⟩ := h.enter ht
  have hhead : some (startOf (unreachablePeriod calls) t) =
      (unreachablePeriod calls ++ [t]).head?.map SopReadings.now := by
    cases unreachablePeriod calls <;> rfl
  have hcheck := checkThresholdBreached_of_quiet ht henter hquiet
  rw [runOnce_of_enter hping henter hcheck, hconfig]
  refine ⟨rfl, ?_, hflag, hid, ?_⟩
  · rw [hperiod, ← hhead]
    exact hsince
  · rw [hperiod, sopStateOf_concat]
    by_cases hgate : cfg.manualGateAfterHours ≤
        (t.now - startOf (unreachablePeriod calls) t) / 3600
    · rw [if_pos hgate, if_pos hgate]
    · rw [if_neg hgate, if_neg hgate, hstate, h.state, sopStateOf_of_short hpast hgate]
      cases t.breaches cfg <;> simp

/-- One call. -/
theorem Follows.call (h : Follows cfg calls r) (hquiet : ¬ Raises (r.runOnce t).1)
    (hclock : ∀ t' ∈ calls, t'.now ≤ t.now) : Follows cfg (calls ++ [t]) (r.runOnce t).2 := by
  cases ht : t.unreachable with
  | false => exact h.reachable ht hquiet
  | true => exact h.unreachable ht hquiet hclock

end

/-- No call raises. -/
def Quiet (cfg : SopConfig) (calls : List SopReadings) : Prop :=
  ∀ before t, before ++ [t] <+: calls → ¬ Raises ((after cfg before).runOnce t).1

/-- A call at an hour, with a queue that answers. -/
def callAt (hour : ℚ) (ping : PingOutcome) (depth : Nat) : SopReadings :=
  { now := hour * 3600, ping := ping, depth := .ok depth }

/-- A reachable NAS, a period that reaches the backlog threshold and then the gate, and a second
one. -/
def twoOutages : List SopReadings :=
  [callAt 0 .clientError 5, callAt 1 .endpointConnectionError 1000, callAt 2 .otherException 10,
    callAt 25 .endpointConnectionError 10, callAt 26 .returned 10,
    callAt 27 .endpointConnectionError 10]

end MctraderData.Ops
