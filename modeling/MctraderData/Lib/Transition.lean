import Mathlib.Logic.Function.Basic

/-!
# Transition systems with guarded runs

A `Machine` is a set of initial states and a partial step function: `step s a`
is the state after action `a`, or `none` when `a` is not enabled in `s`.

A run may be restricted by a *guard* `g s a` on the state before a step and the
action taken. `Reaches M g s` says that `s` is the last state of a run all of
whose steps meet the guard; the trivial guard gives plain reachability. The
guard is what a conditional safety result quantifies over: "in every run whose
steps all meet the condition".

* `Reaches.invariant`   — the induction rule: initial states satisfy it, every
  guarded step preserves it.
* `Machine.run`         — executes a list of actions.
* `reaches_of_run`      — an executed list of actions is a run.
* `Machine.guardedRun`  — executes a list of actions and checks the guard at each.
-/

namespace MctraderData.Lib

/-- Initial states and a partial, deterministic step function. -/
structure Machine (σ α : Type) where
  init : σ → Prop
  step : σ → α → Option σ

namespace Machine

variable {σ α : Type}

/-- The last state of a run of `M` whose steps all meet the guard `g`. -/
inductive Reaches (M : Machine σ α) (g : σ → α → Prop) : σ → Prop where
  | init {s : σ} : M.init s → Reaches M g s
  | step {s s' : σ} {a : α} :
      Reaches M g s → g s a → M.step s a = some s' → Reaches M g s'

/-- The guard of an unrestricted run. -/
def anyStep : σ → α → Prop := fun _ _ => True

variable {M : Machine σ α} {g : σ → α → Prop}

/-- **Invariant rule.** A predicate that holds initially and is preserved by
every guarded step holds in every state a guarded run reaches. -/
theorem Reaches.invariant {I : σ → Prop} (hInit : ∀ s, M.init s → I s)
    (hStep : ∀ s a s', I s → g s a → M.step s a = some s' → I s') {s : σ} (h : Reaches M g s) :
    I s := by
  induction h with
  | init hs => exact hInit _ hs
  | step _ hg hstep ih => exact hStep _ _ _ ih hg hstep

/-- Execute a list of actions; `none` as soon as one is not enabled. -/
def run (M : Machine σ α) : σ → List α → Option σ
  | s, [] => some s
  | s, a :: rest => (M.step s a).bind fun s' => run M s' rest

variable {l : List α}

/-- An executed list of actions that meet the guard in every state is a guarded run. -/
theorem reaches_of_guarded_run {s s' : σ} (hs : Reaches M g s) (hg : ∀ a ∈ l, ∀ s, g s a)
    (h : M.run s l = some s') : Reaches M g s' := by
  induction l generalizing s with
  | nil =>
    cases Option.some.inj h
    exact hs
  | cons a rest ih =>
    obtain ⟨s₁, hstep, hrest⟩ := Option.bind_eq_some_iff.mp h
    exact ih (hs.step (hg a List.mem_cons_self s) hstep)
      (fun b hb => hg b (List.mem_cons_of_mem a hb)) hrest

/-- An executed list of actions is a run. -/
theorem reaches_of_run {s s' : σ} (hs : Reaches M anyStep s) (h : M.run s l = some s') :
    Reaches M anyStep s' :=
  reaches_of_guarded_run hs (fun _ _ _ => trivial) h

/-- Execute a list of actions; `none` as soon as one is not enabled or does not meet the
guard in the state it is taken in. -/
def guardedRun (M : Machine σ α) (g : σ → α → Prop) [∀ s a, Decidable (g s a)] :
    σ → List α → Option σ
  | s, [] => some s
  | s, a :: rest =>
    if g s a then (M.step s a).bind fun s' => guardedRun M g s' rest else none

theorem reaches_of_guardedRun [∀ s a, Decidable (g s a)] {s s' : σ} (hs : Reaches M g s)
    (h : M.guardedRun g s l = some s') : Reaches M g s' := by
  induction l generalizing s with
  | nil =>
    cases Option.some.inj h
    exact hs
  | cons a rest ih =>
    unfold guardedRun at h
    by_cases hg : g s a
    · rw [if_pos hg] at h
      obtain ⟨s₁, hstep, hrest⟩ := Option.bind_eq_some_iff.mp h
      exact ih (hs.step hg hstep) hrest
    · rw [if_neg hg] at h
      cases h

end Machine

end MctraderData.Lib
