import Mathlib.Logic.Function.Basic

/-!
# Stateful computations that may raise

`Eff σ ε α` is the meaning of a block of imperative code: from a state `σ` it
either returns an `α` or raises an `ε`, and in both cases leaves a new state. A
raise does **not** roll the state back: whatever was written before it stays
written, as in the code modelled here.

`wp m Q s` is the weakest precondition of `m` from `s`: `Q` holds of the outcome
(returned or raised) and the state after. The `wp_*` rules take a program apart
statement by statement; `wp_mono` weakens the postcondition, so that one spec
per function is proved once and used by its callers without unfolding it.
-/

namespace MctraderData.Lib

/-- A computation on a state `σ` that returns an `α` or raises an `ε`. -/
def Eff (σ ε α : Type) : Type := σ → Except ε α × σ

namespace Eff

variable {σ ε α β : Type}

instance : Monad (Eff σ ε) where
  pure a := fun s => (.ok a, s)
  bind m f := fun s =>
    match m s with
    | (.ok a, s') => f a s'
    | (.error e, s') => (.error e, s')

instance : MonadExceptOf ε (Eff σ ε) where
  throw e := fun s => (.error e, s)
  tryCatch m handler := fun s =>
    match m s with
    | (.ok a, s') => (.ok a, s')
    | (.error e, s') => handler e s'

instance : MonadStateOf σ (Eff σ ε) where
  get := fun s => (.ok s, s)
  set s := fun _ => (.ok (), s)
  modifyGet f := fun s => (.ok (f s).1, (f s).2)

/-- Run `m` on every element of a list in order; the first raise ends the loop. -/
def forEach (l : List α) (body : α → Eff σ ε Unit) : Eff σ ε Unit :=
  match l with
  | [] => pure ()
  | x :: rest => do
    body x
    forEach rest body

/-- `try: m except Exception: None` -/
def orNone (m : Eff σ ε α) : Eff σ ε (Option α) :=
  tryCatch (do
    let a ← m
    pure (some a)) fun _ => pure none

/-- `try: m except Exception as e`: whether `m` returns or raises is handed on. -/
def outcome (m : Eff σ ε α) : Eff σ ε (Except ε α) := fun s => (.ok (m s).1, (m s).2)

/-- A call whose outcome is known and that leaves the state alone. -/
def lift (r : Except ε α) : Eff σ ε α := fun s => (r, s)

/-- `try: m finally: cleanup`: the cleanup runs however `m` ends, and a raise in it
replaces the outcome of `m`. -/
def ensuring (m : Eff σ ε α) (cleanup : Eff σ ε Unit) : Eff σ ε α := fun s =>
  match cleanup (m s).2 with
  | (.ok _, s') => ((m s).1, s')
  | (.error e, s') => (.error e, s')

/-- Run `m` on a part of a larger state, with its exceptions renamed. -/
def within {τ δ : Type} (view : σ → τ) (put : τ → σ → σ) (raise : δ → ε) (m : Eff τ δ α) :
    Eff σ ε α := fun s =>
  match m (view s) with
  | (.ok a, t) => (.ok a, put t s)
  | (.error e, t) => (.error (raise e), put t s)

/-- The outcome and the state after `m`, run from `s`, satisfy `Q`. -/
def wp (m : Eff σ ε α) (Q : Except ε α → σ → Prop) (s : σ) : Prop :=
  Q (m s).1 (m s).2

/-- The state `m` leaves, whether it returns or raises. -/
def after (m : Eff σ ε α) (s : σ) : σ := (m s).2

/-- What `m` returns or raises. -/
def result (m : Eff σ ε α) (s : σ) : Except ε α := (m s).1

variable {Q R : Except ε α → σ → Prop} {s : σ}

variable {m : Eff σ ε α}

theorem wp_mono (h : wp m Q s) (hQR : ∀ r s', Q r s' → R r s') :
    wp m R s :=
  hQR _ _ h

theorem wp_congr (h : ∀ r s', Q r s' ↔ R r s') : wp m Q s ↔ wp m R s :=
  h _ _

theorem wp_and (hQ : wp m Q s) (hR : wp m R s) :
    wp m (fun r s' => Q r s' ∧ R r s') s :=
  ⟨hQ, hR⟩

/-- Programs with the same postconditions are equal. -/
theorem eq_of_wp {m' : Eff σ ε α} (h : ∀ Q s, wp m Q s ↔ wp m' Q s) : m = m' := by
  funext s
  exact ((h (fun r s' => (r, s') = m' s) s).mpr rfl)

@[simp] theorem wp_pure (a : α) : wp (pure a : Eff σ ε α) Q s ↔ Q (.ok a) s :=
  Iff.rfl

@[simp] theorem wp_throw (e : ε) : wp (throw e : Eff σ ε α) Q s ↔ Q (.error e) s :=
  Iff.rfl

/-- Sequencing: a raise of the first part ends the whole. -/
@[simp] theorem wp_bind (m : Eff σ ε β) (f : β → Eff σ ε α) :
    wp (m >>= f) Q s ↔
      wp m (fun r s' => match r with
        | .ok b => wp (f b) Q s'
        | .error e => Q (.error e) s') s := by
  unfold wp
  show Q ((fun s => match m s with
    | (.ok a, s') => f a s'
    | (.error e, s') => (.error e, s') : Eff σ ε α) s).1 _ ↔ _
  simp only [bind]
  cases h : m s with
  | mk r s' => cases r <;> rfl

/-- A handler runs in the state the raise left. -/
@[simp] theorem wp_tryCatch (m : Eff σ ε α) (handler : ε → Eff σ ε α) :
    wp (tryCatch m handler) Q s ↔
      wp m (fun r s' => match r with
        | .ok a => Q (.ok a) s'
        | .error e => wp (handler e) Q s') s := by
  unfold wp
  show Q ((fun s => match m s with
    | (.ok a, s') => (.ok a, s')
    | (.error e, s') => handler e s' : Eff σ ε α) s).1 _ ↔ _
  simp only [tryCatch, tryCatchThe, MonadExceptOf.tryCatch]
  cases h : m s with
  | mk r s' => cases r <;> rfl

@[simp] theorem wp_get {Q : Except ε σ → σ → Prop} :
    wp (get : Eff σ ε σ) Q s ↔ Q (.ok s) s :=
  Iff.rfl

@[simp] theorem wp_set {Q : Except ε PUnit → σ → Prop} (s' : σ) :
    wp (set s' : Eff σ ε PUnit) Q s ↔ Q (.ok ()) s' :=
  Iff.rfl

@[simp] theorem wp_modify {Q : Except ε PUnit → σ → Prop} (f : σ → σ) :
    wp (modify f : Eff σ ε PUnit) Q s ↔ Q (.ok ()) (f s) :=
  Iff.rfl

/-- A computation on a part is specified on that part. -/
theorem wp_within {τ δ : Type} {view : σ → τ} {put : τ → σ → σ} {raise : δ → ε} {m : Eff τ δ α} :
    wp (within view put raise m) Q s ↔
      wp m (fun r t => match r with
        | .ok a => Q (.ok a) (put t s)
        | .error e => Q (.error (raise e)) (put t s)) (view s) := by
  unfold wp within
  cases h : m (view s) with
  | mk r t => cases r <;> rfl

@[simp] theorem wp_lift (r : Except ε α) : wp (lift r : Eff σ ε α) Q s ↔ Q r s :=
  Iff.rfl

/-- A cleanup is specified from the state the guarded part leaves. -/
theorem wp_ensuring {cleanup : Eff σ ε Unit} :
    wp (ensuring m cleanup) Q s ↔
      wp m (fun r s' => wp cleanup (fun rc s'' => match rc with
        | .ok _ => Q r s''
        | .error e => Q (.error e) s'') s') s := by
  unfold wp ensuring
  simp only []
  cases h : cleanup (m s).2 with
  | mk rc s'' => cases rc <;> rfl

@[simp] theorem wp_outcome {Q : Except ε (Except ε α) → σ → Prop} :
    wp (outcome m) Q s ↔ wp m (fun r s' => Q (.ok r) s') s :=
  Iff.rfl

/-- A guarded computation in two parts, the second of them optional, guards each part. -/
theorem tryCatch_optional (m : Eff σ ε (Option α)) (k : Eff σ ε α) (handler : ε → Eff σ ε α) :
    tryCatch (m >>= fun b => b.elim k pure) handler =
      tryCatch m (fun e => handler e >>= fun a => pure (some a)) >>= fun b =>
        b.elim (tryCatch k handler) pure := by
  refine eq_of_wp fun Q s => ?_
  rw [wp_tryCatch, wp_bind, wp_bind, wp_tryCatch]
  refine wp_congr fun r s' => ?_
  cases r with
  | error e =>
    simp only [wp_bind, wp_pure]
    refine wp_congr fun r s'' => ?_
    cases r <;> rfl
  | ok b =>
    cases b with
    | some a => rfl
    | none => exact (wp_tryCatch k handler).symm

variable {f : β → Eff σ ε α}

/-- Sequencing through a spec of the first part. -/
theorem wp_seq {m : Eff σ ε β} {P : Except ε β → σ → Prop} (hm : wp m P s)
    (hok : ∀ b s', P (.ok b) s' → wp (f b) Q s')
    (herr : ∀ e s', P (.error e) s' → Q (.error e) s') : wp (m >>= f) Q s := by
  refine (wp_bind m f).mpr (wp_mono hm fun r s' h => ?_)
  cases r with
  | ok b => exact hok b s' h
  | error e => exact herr e s' h

variable {s' : σ}

/-- Sequencing after a first part that is known to return. -/
theorem wp_bind_ok {m : Eff σ ε β} {b : β} (hm : m s = (.ok b, s')) (h : wp (f b) Q s') :
    wp (m >>= f) Q s := by
  refine (wp_bind m f).mpr ?_
  unfold wp
  rw [hm]
  exact h

theorem bind_ok {m : Eff σ ε β} {b : β} (hm : m s = (.ok b, s')) : (m >>= f) s = f b s' :=
  wp_bind_ok (Q := fun r t => (r, t) = f b s') hm rfl

/-- Sequencing after a first part that is known to raise. -/
theorem wp_bind_error {m : Eff σ ε β} {e : ε} (hm : m s = (.error e, s')) (h : Q (.error e) s') :
    wp (m >>= f) Q s := by
  refine (wp_bind m f).mpr ?_
  unfold wp
  rw [hm]
  exact h

variable {handler : ε → Eff σ ε α} {P : Except ε α → σ → Prop}

/-- Handling through a spec of the guarded part. -/
theorem wp_catch (hm : wp m P s) (hok : ∀ a s', P (.ok a) s' → Q (.ok a) s')
    (herr : ∀ e s', P (.error e) s' → wp (handler e) Q s') : wp (tryCatch m handler) Q s := by
  refine (wp_tryCatch m handler).mpr (wp_mono hm fun r s' h => ?_)
  cases r with
  | ok a => exact hok a s' h
  | error e => exact herr e s' h

/-- A guarded computation always returns. -/
theorem wp_orNone (h : wp m P s) :
    wp (orNone m) (fun r s' => ∃ r', P r' s' ∧ r = .ok r'.toOption) s := by
  refine wp_catch (P := fun r s' => match r with
    | .ok a => ∃ r', P r' s' ∧ a = r'.toOption
    | .error e => P (.error e) s') ?_ ?_ ?_
  · exact wp_seq h (fun a s' ha => ⟨.ok a, ha, rfl⟩) fun e s' he => he
  · rintro a s' ⟨r', hr', rfl⟩
    exact ⟨r', hr', rfl⟩
  · intro e s' he
    exact ⟨.error e, he, rfl⟩

/-- **Loop rule with progress.** If the body never raises, an invariant on the elements
done so far holds of all of them when the loop ends. -/
theorem wp_forEach_done {l : List α} {body : α → Eff σ ε Unit} {I : List α → σ → Prop}
    (hBody : ∀ done x s, I done s → wp (body x) (fun r s' => r = .ok () ∧ I (done ++ [x]) s') s)
    (done : List α) (hs : I done s) :
    wp (forEach l body) (fun r s' => r = .ok () ∧ I (done ++ l) s') s := by
  induction l generalizing s done with
  | nil => exact ⟨rfl, by rwa [List.append_nil]⟩
  | cons x rest ih =>
    refine wp_seq (hBody done x s hs) ?_ fun e s' h => nomatch h.1
    rintro - s' ⟨-, hs'⟩
    rw [show done ++ x :: rest = (done ++ [x]) ++ rest by simp]
    exact ih (done ++ [x]) hs'

/-! ## frames -/

/-- However `m` ends, the state before is related to the state after. -/
def Keeps (F : σ → σ → Prop) (m : Eff σ ε α) : Prop := ∀ s, F s (m.after s)

/-- From `s` the frame `F` is kept however `m` ends, and `P` holds of what it returns. -/
def Ensures (F : σ → σ → Prop) (m : Eff σ ε α) (s : σ) (P : α → σ → Prop) : Prop :=
  wp m (fun r s' => F s s' ∧ ∀ a, r = .ok a → P a s') s

section

variable {F : σ → σ → Prop}

theorem Keeps.wp {m : Eff σ ε α} (h : Keeps F m) (s : σ) : wp m (fun _ s' => F s s') s := h s

theorem keeps_modify {f : σ → σ} (h : ∀ s, F s (f s)) : Keeps F (modify f : Eff σ ε PUnit) := h

theorem keeps_pure [Std.Refl F] (a : α) : Keeps F (pure a : Eff σ ε α) := fun s => Std.Refl.refl s

theorem keeps_throw [Std.Refl F] (e : ε) : Keeps F (throw e : Eff σ ε α) :=
  fun s => Std.Refl.refl s

theorem keeps_lift [Std.Refl F] (r : Except ε α) : Keeps F (lift r : Eff σ ε α) :=
  fun s => Std.Refl.refl s

theorem keeps_get [Std.Refl F] : Keeps F (get : Eff σ ε σ) := fun s => Std.Refl.refl s

theorem Keeps.ensures {m : Eff σ ε α} (h : Keeps F m) : Ensures F m s fun _ _ => True :=
  ⟨h s, fun _ _ => trivial⟩

theorem ensures_modify {f : σ → σ} {P : PUnit → σ → Prop} (h : F s (f s)) (hP : P () (f s)) :
    Ensures F (modify f : Eff σ ε PUnit) s P :=
  ⟨h, fun _ _ => hP⟩

section

variable [Std.Refl F] {P : α → σ → Prop}

theorem ensures_pure {a : α} (h : P a s) : Ensures F (pure a : Eff σ ε α) s P := by
  refine ⟨Std.Refl.refl s, ?_⟩
  rintro _ ⟨rfl⟩
  exact h

theorem ensures_throw (e : ε) : Ensures F (throw e : Eff σ ε α) s P :=
  ⟨Std.Refl.refl s, fun _ h => nomatch h⟩

end

variable [IsTrans σ F]

/-- **Frame rule.** A reflexive and transitive relation between states is kept by a
sequence whose parts keep it. -/
theorem Keeps.bind {m : Eff σ ε β} {f : β → Eff σ ε α} (hm : Keeps F m) (hf : ∀ b, Keeps F (f b)) :
    Keeps F (m >>= f) := by
  intro s
  refine wp_seq (Q := fun _ s' => F s s') (hm.wp s) ?_ fun e s' h => h
  intro b s' h
  exact wp_mono ((hf b).wp s') fun _ s'' h' => IsTrans.trans s s' s'' h h'

/-- What the first part returns is known to the second. -/
theorem Ensures.bind {m : Eff σ ε β} {f : β → Eff σ ε α} {P : β → σ → Prop} {P' : α → σ → Prop}
    (hm : Ensures F m s P) (hf : ∀ b s', F s s' → P b s' → Ensures F (f b) s' P') :
    Ensures F (m >>= f) s P' := by
  refine wp_seq hm ?_ fun e s' h => ⟨h.1, fun _ h => nomatch h⟩
  rintro b s' ⟨h, hb⟩
  refine wp_mono (hf b s' h (hb b rfl)) ?_
  rintro r s'' ⟨h', hr⟩
  exact ⟨IsTrans.trans s s' s'' h h', hr⟩

theorem Keeps.tryCatch {m : Eff σ ε α} (hm : Keeps F m) (hh : ∀ e, Keeps F (handler e)) :
    Keeps F (tryCatch m handler) := by
  intro s
  refine wp_catch (Q := fun _ s' => F s s') (hm.wp s) (fun a s' h => h) ?_
  intro e s' h
  exact wp_mono ((hh e).wp s') fun _ s'' h' => IsTrans.trans s s' s'' h h'

end

end Eff

end MctraderData.Lib
