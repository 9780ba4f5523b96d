import Mathlib.Data.List.Chain
import Mathlib.Order.Lattice

/-!
# Copying batches while checking their order

A writer receives batches of elements in sequence. It looks at the key of every
element of a batch before it writes the batch, and stops at the first element whose
key is below the last one seen. A batch whose tag the writer does not accept is
refused after the order check.

`stream` is the loop. `stream_append` cuts it where one source ends and the next
begins; `stream_unordered_iff` and `stream_done_iff` say how it ends, in terms of the
elements it looks at, and `stream_done` what it has written.
-/

namespace MctraderData.Lib

/-- How the copy ended; `done` carries the last key seen. -/
inductive StreamOutcome (β : Type) where
  | done (last : Option β)
  | unordered
  | rejected
deriving DecidableEq, Repr

section

variable {α β γ : Type} [LinearOrder β] (key : α → β)

/-- Look at one batch after the key `last`: the last key afterwards, or `none` when
the keys decrease. -/
def scanBatch : Option β → List α → Option (Option β)
  | last, [] => some last
  | none, a :: rest => scanBatch (some (key a)) rest
  | some b, a :: rest => if key a < b then none else scanBatch (some (key a)) rest

/-- Copy tagged batches: what was written, and how the copy ended. -/
def stream (accept : γ → Bool) :
    Option β → List (γ × List α) → List (List α) × StreamOutcome β
  | last, [] => ([], .done last)
  | last, (tag, batch) :: rest =>
    match scanBatch key last batch with
    | none => ([], .unordered)
    | some last' =>
      if accept tag then
        let r := stream accept last' rest
        (batch :: r.1, r.2)
      else ([], .rejected)

/-- The elements the copy looks at if none of them is out of order: everything up to
and including the first batch that is not accepted. -/
def looked (accept : γ → Bool) : List (γ × List α) → List α
  | [] => []
  | (tag, batch) :: rest => batch ++ if accept tag then looked accept rest else []

/-- The keys after `last` do not decrease. -/
def OrderedFrom (last : Option β) (l : List α) : Prop :=
  List.IsChain (· ≤ ·) (last.toList ++ l.map key)

variable {key}

theorem orderedFrom_nil (last : Option β) : OrderedFrom key last [] := by
  unfold OrderedFrom
  cases last <;> simp

theorem orderedFrom_none_cons (a : α) (l : List α) :
    OrderedFrom key none (a :: l) ↔ OrderedFrom key (some (key a)) l :=
  Iff.rfl

theorem orderedFrom_some_cons (b : β) (a : α) (l : List α) :
    OrderedFrom key (some b) (a :: l) ↔ b ≤ key a ∧ OrderedFrom key (some (key a)) l := by
  exact List.isChain_cons_cons

variable {last : Option β} {batch : List α}

/-- The order check of one batch, with whatever follows it. -/
theorem orderedFrom_append {l : List α} :
    OrderedFrom key last (batch ++ l) ↔
      ∃ last', scanBatch key last batch = some last' ∧ OrderedFrom key last' l := by
  induction batch generalizing last with
  | nil => simp [scanBatch]
  | cons a rest ih =>
    cases last with
    | none =>
      rw [List.cons_append, orderedFrom_none_cons, ih, scanBatch]
    | some b =>
      rw [List.cons_append, orderedFrom_some_cons, ih, scanBatch]
      by_cases hlt : key a < b
      · simp [hlt]
      · rw [if_neg hlt, and_iff_right (le_of_not_gt hlt)]

theorem orderedFrom_of_scanBatch {last' : Option β}
    (hscan : scanBatch key last batch = some last') (l : List α) :
    OrderedFrom key last (batch ++ l) ↔ OrderedFrom key last' l := by
  rw [orderedFrom_append, hscan]
  simp

theorem not_orderedFrom_of_scanBatch (hscan : scanBatch key last batch = none) (l : List α) :
    ¬ OrderedFrom key last (batch ++ l) := by
  rw [orderedFrom_append, hscan]
  simp

variable {accept : γ → Bool} {l : List (γ × List α)}

/-- The copy stops as unordered exactly when the elements it looks at decrease. -/
theorem stream_unordered_iff :
    (stream key accept last l).2 = .unordered ↔ ¬ OrderedFrom key last (looked accept l) := by
  induction l generalizing last with
  | nil => simp [stream, looked, orderedFrom_nil]
  | cons p rest ih =>
    obtain ⟨tag, batch⟩ := p
    rw [stream, looked]
    cases hscan : scanBatch key last batch with
    | none => exact iff_of_true rfl (not_orderedFrom_of_scanBatch hscan _)
    | some last' =>
      rw [orderedFrom_of_scanBatch hscan]
      by_cases hacc : accept tag
      · simp only [hacc, if_true]
        exact ih
      · simp [hacc, orderedFrom_nil]

/-- The copy is done exactly when nothing is out of order and every batch accepted. -/
theorem stream_done_iff :
    (∃ last', (stream key accept last l).2 = .done last') ↔
      OrderedFrom key last (looked accept l) ∧ ∀ p ∈ l, accept p.1 := by
  induction l generalizing last with
  | nil => simp [stream, looked, orderedFrom_nil]
  | cons p rest ih =>
    obtain ⟨tag, batch⟩ := p
    rw [stream, looked]
    cases hscan : scanBatch key last batch with
    | none => simp [not_orderedFrom_of_scanBatch hscan]
    | some last' =>
      rw [orderedFrom_of_scanBatch hscan, List.forall_mem_cons]
      by_cases hacc : accept tag
      · simp only [hacc, if_true, true_and]
        exact ih
      · simp [hacc]

/-- A copy that is done has written every batch. -/
theorem stream_done {last' : Option β} (h : (stream key accept last l).2 = .done last') :
    (stream key accept last l).1 = l.map Prod.snd := by
  induction l generalizing last with
  | nil => rfl
  | cons p rest ih =>
    obtain ⟨tag, batch⟩ := p
    rw [stream] at h ⊢
    cases hscan : scanBatch key last batch with
    | none =>
      rw [hscan] at h
      cases h
    | some last₁ =>
      rw [hscan] at h
      by_cases hacc : accept tag
      · simp only [hacc, if_true, List.map_cons] at h ⊢
        rw [ih h]
      · simp [hacc] at h

/-- Copying one source after another: the second starts from the last key of the
first, and is not reached unless the first is done. -/
theorem stream_append {l' : List (γ × List α)} :
    stream key accept last (l ++ l') =
      match stream key accept last l with
      | (written, .done last') =>
        (written ++ (stream key accept last' l').1, (stream key accept last' l').2)
      | (written, .unordered) => (written, .unordered)
      | (written, .rejected) => (written, .rejected) := by
  induction l generalizing last with
  | nil => rfl
  | cons p rest ih =>
    obtain ⟨tag, batch⟩ := p
    rw [List.cons_append, stream, stream]
    cases hscan : scanBatch key last batch with
    | none => rfl
    | some last₁ =>
      by_cases hacc : accept tag
      · simp only [hacc, if_true, ih]
        generalize stream key accept last₁ rest = r
        obtain ⟨written, outcome⟩ := r
        cases outcome <;> rfl
      · simp [hacc]

/-- The copy looks at the elements from the first one on. -/
theorem looked_prefix (accept : γ → Bool) (l : List (γ × List α)) :
    looked accept l <+: (l.map Prod.snd).flatten := by
  induction l with
  | nil => exact List.prefix_rfl
  | cons p rest ih =>
    rw [looked, List.map_cons, List.flatten_cons]
    by_cases hacc : accept p.1
    · rw [if_pos hacc]
      exact (List.prefix_append_right_inj _).mpr ih
    · rw [if_neg hacc, List.append_nil]
      exact List.prefix_append _ _

/-- If every batch is accepted, the copy looks at everything. -/
theorem looked_of_accepted (h : ∀ p ∈ l, accept p.1) :
    looked accept l = (l.map Prod.snd).flatten := by
  induction l with
  | nil => rfl
  | cons p rest ih =>
    obtain ⟨hp, hrest⟩ := List.forall_mem_cons.mp h
    rw [looked, if_pos hp, ih hrest]
    rfl

end

end MctraderData.Lib
