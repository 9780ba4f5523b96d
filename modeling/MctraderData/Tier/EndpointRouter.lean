import Mathlib.Data.Rat.Floor
import MctraderData.Lib.Transition

/-!
# mctrader-data — the endpoint router

Model of `io/endpoint_router.py`. The endpoint of the cold store is kept three times: in
an environment variable, in the router and in its client. `flip` and `rollback` change
the three one after the other, with the client factory called in between.

* `flip_atomic` — in which calls the three agree afterwards, and a blocked call changes
  nothing
* `flip_not_atomic` — calls in which they do not
-/

namespace MctraderData.Tier

open Lib

/-- `datetime.isoformat` and `datetime.fromisoformat`, on seconds. -/
structure IsoFormat where
  isoformat : ℚ → String
  fromisoformat : String → Option ℚ

inductive FlipStatus where
  | flipped
  | cacheFlushRequired
  | legacyPartitionDetected
  | dualWriteGraceActive
  | flipBlocked
deriving DecidableEq, Repr

structure EndpointFlipResult where
  status : FlipStatus
  newEndpoint : String := ""
  previousEndpoint : String := ""
  graceStartedAtIso : String := ""
  graceRemainingDays : Int := 0
deriving DecidableEq

structure GraceModeState where
  active : Bool := false
  startedAtIso : String := ""
  graceDays : Int := 7
  lastInvariantVerifyIso : String := ""
  lastInvariantStatus : String := ""
deriving DecidableEq

/-- A client: the endpoint it talks to, and what `client._endpoint.host` shows of it, if
there is such an attribute. -/
structure S3Client where
  endpoint : String
  host : Option String
deriving DecidableEq

/-- The router, with `os.environ.get(env_var, "")`. -/
structure EndpointRouter where
  env : String
  endpointUrl : String := ""
  client : Option S3Client := none
  graceState : GraceModeState := {}
deriving DecidableEq

namespace EndpointRouter

/-- `grace_remaining_days` -/
def graceRemainingDays (iso : IsoFormat) (now : ℚ) (r : EndpointRouter) : Int :=
  if ¬ r.graceState.active ∨ r.graceState.startedAtIso = "" then 0
  else match iso.fromisoformat r.graceState.startedAtIso with
    | none => 0
    | some started => max 0 ⌊(r.graceState.graceDays : ℚ) - (now - started) / 86400⌋

/-- `if client_endpoint_url and client_endpoint_url != new_endpoint` -/
def contradicts (client : S3Client) (newEndpoint : String) : Bool :=
  match client.host with
  | none => false
  | some host => host != "" && host != newEndpoint

/-- `flip` -/
def flip (iso : IsoFormat) (newEndpoint : String) (activateGrace : Bool) (graceDays : Int)
    (now : ℚ) (created : Option S3Client) (r : EndpointRouter) :
    EndpointFlipResult × EndpointRouter :=
  if r.graceState.active then
    ({ status := .dualWriteGraceActive
       newEndpoint := r.endpointUrl
       previousEndpoint := r.endpointUrl
       graceStartedAtIso := r.graceState.startedAtIso
       graceRemainingDays := r.graceRemainingDays iso now }, r)
  else
    let previousEndpoint := r.endpointUrl
    let r := { r with env := newEndpoint }
    match created with
    | none => ({ status := .flipBlocked, newEndpoint, previousEndpoint }, r)
    | some newClient =>
      let r := { r with client := some newClient, endpointUrl := newEndpoint }
      if contradicts newClient newEndpoint then
        ({ status := .flipBlocked, newEndpoint, previousEndpoint }, r)
      else if activateGrace then
        ({ status := .flipped
           newEndpoint
           previousEndpoint
           graceStartedAtIso := iso.isoformat now
           graceRemainingDays := graceDays },
          { r with graceState := { r.graceState with
              active := true, startedAtIso := iso.isoformat now, graceDays } })
      else ({ status := .flipped, newEndpoint, previousEndpoint }, r)

/-- `rollback`: no grace period holds it back, and nobody looks at the client. -/
def rollback (previousEndpoint : String) (created : Option S3Client) (r : EndpointRouter) :
    EndpointFlipResult × EndpointRouter :=
  let priorActive := r.endpointUrl
  let r := { r with env := previousEndpoint }
  match created with
  | none =>
    ({ status := .flipBlocked, newEndpoint := previousEndpoint, previousEndpoint := priorActive },
      r)
  | some newClient =>
    ({ status := .flipped, newEndpoint := previousEndpoint, previousEndpoint := priorActive },
      { r with
        client := some newClient
        endpointUrl := previousEndpoint
        graceState := { r.graceState with active := false } })

/-! ## the three places -/

/-- The endpoint of the active client; an unset endpoint has no client. -/
def clientEndpoint (r : EndpointRouter) : String := (r.client.map S3Client.endpoint).getD ""

/-- The environment variable, the router and its client have one endpoint. -/
def Agree (r : EndpointRouter) : Prop :=
  r.env = r.endpointUrl ∧ r.clientEndpoint = r.endpointUrl

instance (r : EndpointRouter) : Decidable r.Agree := inferInstanceAs (Decidable (_ ∧ _))

/-- The three places and the grace state are as before. -/
def Unchanged (r r' : EndpointRouter) : Prop :=
  r'.env = r.env ∧ r'.endpointUrl = r.endpointUrl ∧ r'.clientEndpoint = r.clientEndpoint ∧
    r'.graceState = r.graceState

instance (r r' : EndpointRouter) : Decidable (Unchanged r r') :=
  inferInstanceAs (Decidable (_ ∧ _))

/-- A call, with what the client factory does in it. -/
inductive Call where
  | flip (newEndpoint : String) (activateGrace : Bool) (graceDays : Int) (now : ℚ)
      (created : Option S3Client)
  | rollback (previousEndpoint : String) (created : Option S3Client)

def call (iso : IsoFormat) (r : EndpointRouter) : Call → EndpointFlipResult × EndpointRouter
  | .flip newEndpoint activateGrace graceDays now created =>
    r.flip iso newEndpoint activateGrace graceDays now created
  | .rollback previousEndpoint created => r.rollback previousEndpoint created

/-- What a call promises: agreement, and nothing changed when it is blocked. -/
def Atomic (iso : IsoFormat) (r : EndpointRouter) (c : Call) : Prop :=
  (r.call iso c).2.Agree ∧
    ((r.call iso c).1.status = .flipBlocked → Unchanged r (r.call iso c).2)

/-- The factory makes a client of the endpoint it is asked for; it may fail only when that
is the endpoint already. -/
def Delivers (r : EndpointRouter) (endpoint : String) : Option S3Client → Prop
  | none => endpoint = r.endpointUrl
  | some client => client.endpoint = endpoint

/-- The condition on a call. A `flip` in the grace period is refused and needs none; in
another one a client that shows a different host is only harmless when the endpoint is
the one already used. -/
def calmCall (r : EndpointRouter) : Call → Prop
  | .flip newEndpoint _ _ _ created => r.graceState.active = false →
      r.Delivers newEndpoint created ∧
        ∀ client, created = some client → contradicts client newEndpoint = true →
          newEndpoint = r.endpointUrl
  | .rollback previousEndpoint created => r.Delivers previousEndpoint created

variable {iso : IsoFormat} {r : EndpointRouter}

/-- After a swap the three places agree just when the client is of the new endpoint. -/
theorem agree_swap_iff {r : EndpointRouter} {endpoint : String} {client : S3Client}
    (henv : r.env = endpoint) (hurl : r.endpointUrl = endpoint) (hclient : r.client = some client) :
    r.Agree ↔ client.endpoint = endpoint := by
  unfold Agree clientEndpoint
  rw [henv, hurl, hclient]
  exact and_iff_right rfl

/-- A `flip`: refused in the grace period, else by what the factory does. -/
theorem atomic_flip_iff (h : r.Agree) (newEndpoint : String) (activateGrace : Bool)
    (graceDays : Int) (now : ℚ) (created : Option S3Client) :
    Atomic iso r (.flip newEndpoint activateGrace graceDays now created) ↔
      calmCall r (.flip newEndpoint activateGrace graceDays now created) := by
  obtain ⟨henv, hclient⟩ := h
  simp only [Atomic, call, flip, calmCall]
  cases hgrace : r.graceState.active with
  | true =>
    simp only [if_true, Bool.true_eq_false, false_implies, iff_true]
    exact ⟨⟨henv, hclient⟩, nofun⟩
  | false =>
    simp only [Bool.false_eq_true, if_false, true_implies]
    cases created with
    | none =>
      constructor
      · rintro ⟨hagree, -⟩
        exact ⟨hagree.1, nofun⟩
      · rintro ⟨hsame, -⟩
        exact ⟨⟨hsame, hclient⟩, fun _ => ⟨hsame.trans henv.symm, rfl, rfl, rfl⟩⟩
    | some client =>
      cases hhost : contradicts client newEndpoint with
      | true =>
        simp only [hhost, if_true]
        rw [agree_swap_iff rfl rfl rfl]
        constructor
        · rintro ⟨hdelivers, hblocked⟩
          exact ⟨hdelivers, fun _ _ _ => (hblocked trivial).2.1⟩
        · rintro ⟨hdelivers, hsame⟩
          replace hsame := hsame client rfl hhost
          refine ⟨hdelivers, fun _ => ⟨hsame.trans henv.symm, hsame, ?_, rfl⟩⟩
          exact (Eq.trans hdelivers hsame).trans hclient.symm
      | false =>
        -- the call is not blocked, with or without a new grace period
        have hcalm : (r.Delivers newEndpoint (some client) ∧
            ∀ client', some client = some client' → contradicts client' newEndpoint = true →
              newEndpoint = r.endpointUrl) ↔ client.endpoint = newEndpoint := by
          refine and_iff_left fun client' heq hhost' => ?_
          cases Option.some.inj heq
          rw [hhost] at hhost'
          cases hhost'
        rw [hcalm]
        simp only [hhost, Bool.false_eq_true, if_false]
        cases activateGrace with
        | true => exact ⟨fun h => (agree_swap_iff rfl rfl rfl).mp h.1,
            fun h => ⟨(agree_swap_iff rfl rfl rfl).mpr h, nofun⟩⟩
        | false => exact ⟨fun h => (agree_swap_iff rfl rfl rfl).mp h.1,
            fun h => ⟨(agree_swap_iff rfl rfl rfl).mpr h, nofun⟩⟩

theorem atomic_rollback_iff (h : r.Agree) (previousEndpoint : String) (created : Option S3Client) :
    Atomic iso r (.rollback previousEndpoint created) ↔
      calmCall r (.rollback previousEndpoint created) := by
  obtain ⟨henv, hclient⟩ := h
  cases created with
  | none =>
    constructor
    · rintro ⟨hagree, -⟩
      exact hagree.1
    · intro hsame
      exact ⟨⟨hsame, hclient⟩, fun _ => ⟨Eq.trans hsame henv.symm, rfl, rfl, rfl⟩⟩
  | some client =>
    exact ⟨fun h => (agree_swap_iff rfl rfl rfl).mp h.1,
      fun h => ⟨(agree_swap_iff rfl rfl rfl).mpr h, nofun⟩⟩

/-- Sequences of calls, from a router in agreement. -/
def routerMachine (iso : IsoFormat) : Machine EndpointRouter Call where
  init := Agree
  step r c := some (r.call iso c).2

/-- **Atomicity of the flip.** Along every sequence of calls that meet the condition the
three places agree, and there the next call keeps its promise just when it meets the
condition too. -/
theorem flip_atomic (h : (routerMachine iso).Reaches calmCall r) :
    r.Agree ∧ ∀ c, Atomic iso r c ↔ calmCall r c := by
  have hcall : ∀ r, r.Agree → ∀ c, Atomic iso r c ↔ calmCall r c := by
    intro r hagree c
    cases c with
    | flip newEndpoint activateGrace graceDays now created =>
      exact atomic_flip_iff hagree newEndpoint activateGrace graceDays now created
    | rollback previousEndpoint created =>
      exact atomic_rollback_iff hagree previousEndpoint created
  have hagree : r.Agree := by
    refine h.invariant (I := Agree) (fun _ hinit => hinit) ?_
    intro r c r' hagree hcalm hstep
    cases Option.some.inj hstep
    exact ((hcall r hagree c).mpr hcalm).1
  exact ⟨hagree, hcall r hagree⟩

/-! ## runs -/

/-- Times as texts, here the empty one. -/
def noIso : IsoFormat := ⟨fun _ => "", fun _ => none⟩

/-- A router on the old store. -/
def oldStore : EndpointRouter where
  env := "old"
  endpointUrl := "old"
  client := some ⟨"old", some "old"⟩

/-- A flip to the new store, with what the factory does. -/
def flipTo (created : Option S3Client) : Call := .flip "new" false 7 0 created

/-- A flip and its rollback. -/
theorem flip_atomic_and_back : (routerMachine noIso).run oldStore
      [flipTo (some ⟨"new", some "new"⟩), .rollback "old" (some ⟨"old", some "old"⟩)] =
      some oldStore ∧ oldStore.Agree := by
  have hinit : (routerMachine noIso).Reaches calmCall oldStore :=
    .init (show oldStore.Agree by decide)
  have hflip : calmCall oldStore (flipTo (some ⟨"new", some "new"⟩)) := by
    refine fun _ => ⟨rfl, fun client heq hhost => ?_⟩
    cases Option.some.inj heq
    cases hhost
  have hback : ∀ r : EndpointRouter, calmCall r (.rollback "old" (some ⟨"old", some "old"⟩)) :=
    fun _ => rfl
  have hreach : (routerMachine noIso).Reaches calmCall oldStore :=
    (hinit.step hflip rfl).step (hback _) rfl
  exact ⟨rfl, (flip_atomic hreach).1⟩

/-- A factory that raises leaves the environment variable of the new store; a client that
shows another host blocks the flip after all three places have changed; and a rollback
takes any client it is given. -/
theorem flip_not_atomic : oldStore.Agree ∧
    (oldStore.call noIso (flipTo none)).1.status = .flipBlocked ∧
    ¬ (oldStore.call noIso (flipTo none)).2.Agree ∧
    (oldStore.call noIso (flipTo (some ⟨"new", some "other"⟩))).1.status = .flipBlocked ∧
    ¬ Unchanged oldStore (oldStore.call noIso (flipTo (some ⟨"new", some "other"⟩))).2 ∧
    ¬ (oldStore.call noIso (flipTo (some ⟨"other", some "other"⟩))).2.Agree ∧
    ¬ (oldStore.call noIso (.rollback "older" none)).2.Agree ∧
    ¬ (oldStore.call noIso (.rollback "older" (some ⟨"other", some "other"⟩))).2.Agree := by
  decide

end EndpointRouter

end MctraderData.Tier
