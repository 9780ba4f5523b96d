import Mathlib.Data.List.Pairwise
import Mathlib.Data.List.TakeWhile
import Mathlib.Order.Lattice

/-!
# A sliding window over a log

A log of timed entries grows at its end, and entries that have become too old are dropped
from its front, at any times. `Remnant` says what may be left. Where the times are in
order, pruning by a cutoff leaves exactly the entries behind it, so that a count over the
pruned window is a count over the whole log.

* `Remnant.append`, `Remnant.prune`, `Remnant.mono` — what keeps a remnant one.
* `Remnant.countP_prune` — a count over the pruned window is a count over the log.
-/

namespace MctraderData.Lib

variable {α T : Type} [LinearOrder T] {time : α → T} {cutoff cutoff' : T} {log kept : List α}

/-- `kept` is the end of a log in order of time; what is missing is older than the cutoff. -/
structure Remnant (time : α → T) (cutoff : T) (log kept : List α) : Prop where
  ordered : log.Pairwise fun a b => time a ≤ time b
  dropped : ∃ old, log = old ++ kept ∧ ∀ a ∈ old, time a < cutoff

theorem Remnant.nil (time : α → T) (cutoff : T) : Remnant time cutoff [] [] :=
  ⟨List.Pairwise.nil, [], rfl, fun _ h => absurd h List.not_mem_nil⟩

/-- With the time, more is too old. -/
theorem Remnant.mono (h : Remnant time cutoff log kept) (hle : cutoff ≤ cutoff') :
    Remnant time cutoff' log kept := by
  obtain ⟨old, hlog, hold⟩ := h.dropped
  exact ⟨h.ordered, old, hlog, fun a ha => (hold a ha).trans_le hle⟩

/-- A new entry that is not older than the others goes to the end of both. -/
theorem Remnant.append (h : Remnant time cutoff log kept) {a : α}
    (hlast : ∀ b ∈ log, time b ≤ time a) : Remnant time cutoff (log ++ [a]) (kept ++ [a]) := by
  obtain ⟨old, hlog, hold⟩ := h.dropped
  refine ⟨List.pairwise_append.mpr ⟨h.ordered, List.pairwise_singleton _ a, ?_⟩, old, ?_, hold⟩
  · intro b hb c hc
    rw [List.mem_singleton.mp hc]
    exact hlast b hb
  · rw [hlog, List.append_assoc]

/-- Pruning drops only what is too old. -/
theorem Remnant.prune (h : Remnant time cutoff log kept) (hle : cutoff' ≤ cutoff) :
    Remnant time cutoff log (kept.dropWhile fun a => decide (time a < cutoff')) := by
  obtain ⟨old, hlog, hold⟩ := h.dropped
  refine ⟨h.ordered, old ++ kept.takeWhile fun a => decide (time a < cutoff'), ?_, ?_⟩
  · rw [List.append_assoc, List.takeWhile_append_dropWhile, hlog]
  · intro a ha
    rcases List.mem_append.mp ha with ha | ha
    · exact hold a ha
    · have htaken := List.mem_takeWhile_imp ha
      exact (of_decide_eq_true htaken).trans_le hle

/-- In order of time, what is dropped from the front is all that is too old. -/
theorem dropWhile_eq_filter (h : kept.Pairwise fun a b => time a ≤ time b) (cutoff : T) :
    (kept.dropWhile fun a => decide (time a < cutoff)) =
      kept.filter fun a => decide (cutoff ≤ time a) := by
  induction kept with
  | nil => rfl
  | cons a rest ih =>
    obtain ⟨ha, hrest⟩ := List.pairwise_cons.mp h
    by_cases hlt : time a < cutoff
    · rw [List.dropWhile_cons_of_pos (by simpa using hlt), ih hrest,
        List.filter_cons_of_neg (by simpa using hlt)]
    · rw [List.dropWhile_cons_of_neg (by simpa using hlt)]
      refine (List.filter_eq_self.mpr fun b hb => decide_eq_true ?_).symm
      rcases List.mem_cons.mp hb with rfl | hb
      · exact not_lt.mp hlt
      · exact (not_lt.mp hlt).trans (ha b hb)

/-- **Counting in the window.** -/
theorem Remnant.countP_prune (h : Remnant time cutoff log kept) (p : α → Bool) :
    (kept.dropWhile fun a => decide (time a < cutoff)).countP p =
      log.countP fun a => decide (cutoff ≤ time a) && p a := by
  obtain ⟨old, rfl, hold⟩ := h.dropped
  have hkept := (List.pairwise_append.mp h.ordered).2.1
  have hnone : old.countP (fun a => decide (cutoff ≤ time a) && p a) = 0 := by
    refine List.countP_eq_zero.mpr fun a ha => ?_
    simp [not_le.mpr (hold a ha)]
  rw [dropWhile_eq_filter hkept, List.countP_filter, List.countP_append, hnone, Nat.zero_add]
  simp only [Bool.and_comm]

end MctraderData.Lib
