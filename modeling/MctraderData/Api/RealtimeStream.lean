import Mathlib.Data.List.Basic
import Mathlib.Data.List.Induction

/-!
# mctrader-data — publishing ticks to Redis

Model of `RealtimeStreamPublisher` of `api/realtime_stream.py`. A tick is added to the stream
of its exchange and symbol. After six failed attempts the publisher goes to local mode, and
puts this tick and all later ones into a queue.

`shutdown` drains the queue if the publisher is not in local mode. But nothing leaves local
mode after `startup`, and outside of it the queue is empty: what is queued is never sent.

An `XADD` that raises adds nothing, and streams are not trimmed.

## Results

* `ticks_delivered_iff` — when every tick is in its stream after `shutdown`.
-/

namespace MctraderData.Api

/-- `_LOCAL_QUEUE_MAX` -/
def localQueueMax : Nat := 100

/-- `_RETRY_MAX` -/
def retryMax : Nat := 5

/-- A `TickRowV1_1`, with its JSON. -/
structure Tick where
  exchange : String
  symbol : String
  json : String
deriving DecidableEq, Repr

/-- A stream key and the payload that goes to it. -/
structure Entry where
  key : String
  payload : String
deriving DecidableEq, Repr

/-- `_stream_key`, and the fields of a tick. -/
def Tick.entry (keyPrefix : String) (tick : Tick) : Entry :=
  ⟨keyPrefix ++ ":tick:" ++ tick.exchange ++ ":" ++ tick.symbol, tick.json⟩

/-- The publisher, and what Redis was given. -/
structure Publisher where
  localMode : Bool
  localQueue : List Entry := []
  publishFailures : Nat := 0
  added : List Entry := []
deriving DecidableEq, Repr

/-- A call of `publish_tick`: the tick, and whether Redis accepts each attempt. -/
structure Publish where
  tick : Tick
  accepts : Fin (retryMax + 1) → Bool

/-- An attempt is accepted. -/
def Publish.Accepted (p : Publish) : Prop := ∃ attempt, p.accepts attempt = true

instance (p : Publish) : Decidable p.Accepted := inferInstanceAs (Decidable (∃ _, _))

/-- `append` of a `deque` of bounded length. -/
def pushBounded (queue : List Entry) (entry : Entry) : List Entry :=
  (queue ++ [entry]).drop (queue.length + 1 - localQueueMax)

variable (keyPrefix : String)

/-- `startup`; `connected` says whether the ping is answered. -/
def startup (connected : Bool) : Publisher := { localMode := !connected }

/-- The attempts of `publish_tick`, from the first. -/
def tryXadd (s : Publisher) (entry : Entry) : List Bool → Publisher
  | [] => { s with
      publishFailures := s.publishFailures + 1
      localMode := true
      localQueue := pushBounded s.localQueue entry }
  | true :: _ => { s with added := s.added ++ [entry] }
  | false :: rest => tryXadd s entry rest

/-- `publish_tick` -/
def publishTick (s : Publisher) (p : Publish) : Publisher :=
  let entry := p.tick.entry keyPrefix
  if s.localMode then { s with localQueue := pushBounded s.localQueue entry }
  else tryXadd s entry (List.ofFn p.accepts)

/-- `shutdown` while Redis accepts every command. -/
def shutdown (s : Publisher) : Publisher :=
  if s.localMode then s else { s with added := s.added ++ s.localQueue, localQueue := [] }

/-- A publisher from `startup` to `shutdown`. -/
def lifetime (connected : Bool) (calls : List Publish) : Publisher :=
  shutdown (calls.foldl (publishTick keyPrefix) (startup connected))

/-- Every stream has the ticks that were published to it, in their order. -/
def Delivered (connected : Bool) (calls : List Publish) : Prop :=
  ∀ key, (lifetime keyPrefix connected calls).added.filter (fun e => decide (e.key = key)) =
    (calls.map fun p => p.tick.entry keyPrefix).filter fun e => decide (e.key = key)

theorem tryXadd_eq (s : Publisher) (entry : Entry) (replies : List Bool) :
    tryXadd s entry replies =
      if true ∈ replies then { s with added := s.added ++ [entry] } else tryXadd s entry [] := by
  induction replies with
  | nil => rfl
  | cons reply rest ih => cases reply <;> simp [tryXadd, ih]

/-- What holds after some calls: outside of local mode the queue is empty and every tick was
added; in local mode a tick is missing. -/
structure Tracked (connected : Bool) (calls : List Publish) (s : Publisher) : Prop where
  mode : s.localMode = false ↔ connected = true ∧ ∀ p ∈ calls, p.Accepted
  direct : s.localMode = false →
    s.localQueue = [] ∧ s.added = calls.map fun p => p.tick.entry keyPrefix
  missing : s.localMode = true → s.added.length ≤ calls.length - 1

theorem Tracked.publish {connected : Bool} {calls : List Publish} {s : Publisher}
    (h : Tracked keyPrefix connected calls s) (p : Publish) :
    Tracked keyPrefix connected (calls ++ [p]) (publishTick keyPrefix s p) := by
  have haccepted : true ∈ List.ofFn p.accepts ↔ p.Accepted := List.mem_ofFn
  unfold publishTick
  cases hmode : s.localMode with
  | true =>
    have hmissing := h.missing hmode
    refine ⟨iff_of_false (by simp) fun hok => ?_, fun ht => by simp at ht,
      fun _ => by simp; omega⟩
    have := h.mode.mpr ⟨hok.1, fun q hq => hok.2 q (List.mem_append_left _ hq)⟩
    simp [hmode] at this
  | false =>
    obtain ⟨hqueue, hadded⟩ := h.direct hmode
    obtain ⟨hconnected, hcalls⟩ := h.mode.mp hmode
    rw [if_neg (by simp), tryXadd_eq]
    by_cases hp : p.Accepted
    · rw [if_pos (haccepted.mpr hp)]
      refine ⟨iff_of_true hmode ⟨hconnected, ?_⟩, fun _ => by simp [hqueue, hadded],
        fun ht => by simp [hmode] at ht⟩
      simpa [or_imp, forall_and] using ⟨hcalls, hp⟩
    · rw [if_neg (haccepted.not.mpr hp)]
      exact ⟨by simp [tryXadd, hp], fun ht => by simp [tryXadd] at ht,
        fun _ => by simp [tryXadd, hadded]⟩

theorem tracked (connected : Bool) (calls : List Publish) :
    Tracked keyPrefix connected calls
      (calls.foldl (publishTick keyPrefix) (startup connected)) := by
  induction calls using List.reverseRecOn with
  | nil => exact ⟨by simp [startup], fun _ => ⟨rfl, rfl⟩, fun _ => Nat.le_refl 0⟩
  | append_singleton calls p ih =>
    rw [List.foldl_concat]
    exact ih.publish keyPrefix p

/-- Every tick is in its stream after `shutdown` exactly when none was published, or when Redis
was there at `startup` and accepted an attempt for each. -/
theorem ticks_delivered_iff (connected : Bool) (calls : List Publish) :
    Delivered keyPrefix connected calls ↔
      calls = [] ∨ connected = true ∧ ∀ p ∈ calls, p.Accepted := by
  have h := tracked keyPrefix connected calls
  unfold Delivered lifetime shutdown
  generalize calls.foldl (publishTick keyPrefix) (startup connected) = s at h
  cases hmode : s.localMode with
  | false =>
    obtain ⟨hqueue, hadded⟩ := h.direct hmode
    exact iff_of_true (fun key => by simp [hqueue, hadded]) (Or.inr (h.mode.mp hmode))
  | true =>
    have hnot := h.mode.not.mp (by simp [hmode])
    have hmissing := h.missing hmode
    rw [or_iff_left hnot]
    constructor
    · intro hdelivered
      -- equal streams have equal lengths together
      have hperm : s.added.Perm (calls.map fun p => p.tick.entry keyPrefix) := by
        refine List.perm_iff_count.mpr fun e => ?_
        have hkey := congrArg (List.count e) (hdelivered e.key)
        rwa [List.count_filter (by simp), List.count_filter (by simp)] at hkey
      have hlength := hperm.length_eq
      rw [List.length_map] at hlength
      exact List.eq_nil_of_length_eq_zero (by omega)
    · rintro rfl key
      simp [List.eq_nil_of_length_eq_zero (Nat.le_zero.mp hmissing)]

/-- Six failed attempts: the tick is not in its stream, though Redis is back at `shutdown`. -/
theorem queued_tick_is_lost :
    let calls : List Publish := [⟨⟨"upbit", "KRW-BTC", "1"⟩, fun _ => false⟩]
    (lifetime "market" true calls).added = [] ∧ ¬Delivered "market" true calls := by
  refine ⟨by decide, fun h => ?_⟩
  exact absurd (h "market:tick:upbit:KRW-BTC") (by decide)

end MctraderData.Api
