import Mathlib.Data.List.Count
import Mathlib.Data.List.Nodup
import Mathlib.Data.List.Perm.Basic

/-!
# Sweeps with a budget and no memory

A sweep looks at the first `b` elements of a list and removes the good ones among them.
The others stay in the list, so the next sweep looks at them again: an element that
stays uses up a place of every sweep in which it is among the first.

* `countP_sweep_le`       — however the list is ordered, a sweep leaves at most
  `n - (b - m)` of `n` good elements, if `m` are not good.
* `countP_sweep_badFirst` — with the others in front it leaves exactly that many.
-/

namespace MctraderData.Lib

variable {α : Type} (good : α → Bool)

/-- The list without the good elements among its first `b`. -/
def sweep (b : ℕ) (l : List α) : List α := (l.take b).filter (fun a => !good a) ++ l.drop b

/-- What one sweep removes. -/
def swept (b : ℕ) (l : List α) : List α := (l.take b).filter good

variable {good} {b : ℕ} {l : List α}

theorem swept_zero (l : List α) : swept good 0 l = [] := rfl

theorem swept_succ_cons (b : ℕ) (a : α) (l : List α) :
    swept good (b + 1) (a :: l) = if good a then a :: swept good b l else swept good b l := by
  unfold swept
  rw [List.take_succ_cons, List.filter_cons]

theorem swept_congr {good' : α → Bool} (h : ∀ a ∈ l, good a = good' a) :
    swept good b l = swept good' b l :=
  List.filter_congr fun a ha => h a (List.mem_of_mem_take ha)

theorem mem_of_mem_sweep {a : α} (h : a ∈ sweep good b l) : a ∈ l := by
  rcases List.mem_append.mp h with h | h
  · exact List.mem_of_mem_take (List.mem_of_mem_filter h)
  · exact List.mem_of_mem_drop h

/-- In a list without repetitions the sweep leaves what it does not remove. -/
theorem filter_eq_sweep {keep : α → Bool} (h : l.Nodup)
    (hkeep : ∀ a, keep a = true ↔ a ∉ swept good b l) : l.filter keep = sweep good b l := by
  have hsplit : (l.take b ++ l.drop b).Nodup := by rwa [List.take_append_drop]
  obtain ⟨-, -, hdisjoint⟩ := List.nodup_append.mp hsplit
  have htake : (l.take b).filter keep = (l.take b).filter fun a => !good a := by
    refine List.filter_congr fun a ha => Bool.eq_iff_iff.mpr ((hkeep a).trans ?_)
    simp [swept, ha]
  have hdrop : (l.drop b).filter keep = l.drop b := by
    refine List.filter_eq_self.mpr fun a ha => (hkeep a).mpr fun hswept => ?_
    exact hdisjoint a (List.mem_of_mem_filter hswept) a ha rfl
  calc l.filter keep = (l.take b ++ l.drop b).filter keep := by rw [List.take_append_drop]
    _ = sweep good b l := by rw [List.filter_append, htake, hdrop, sweep]

/-! ## how many good elements a sweep leaves -/

theorem countP_sweep (b : ℕ) (l : List α) :
    (sweep good b l).countP good = (l.drop b).countP good := by
  have hnone : ((l.take b).filter fun a => !good a).countP good = 0 := by
    refine List.countP_eq_zero.mpr fun a ha => ?_
    simpa using List.of_mem_filter ha
  rw [sweep, List.countP_append, hnone, Nat.zero_add]

/-- What is not good stays. -/
theorem countP_bad_sweep (b : ℕ) (l : List α) :
    (sweep good b l).countP (fun a => !good a) = l.countP fun a => !good a := by
  rw [sweep, List.countP_append, List.countP_filter]
  simp only [Bool.and_self]
  rw [← List.countP_append, List.take_append_drop]

/-- **Progress.** Among the first `b` there are at most `m` that are not good. -/
theorem countP_sweep_le (b : ℕ) (l : List α) :
    (sweep good b l).countP good ≤
      l.countP good - (b - l.countP fun a => !good a) := by
  have hgood : l.countP good = (l.take b).countP good + (l.drop b).countP good := by
    rw [← List.countP_append, List.take_append_drop]
  have hbad : (l.take b).countP (fun a => !good a) ≤ l.countP fun a => !good a :=
    (List.take_sublist b l).countP_le
  have htake : (l.take b).length =
      (l.take b).countP good + (l.take b).countP fun a => !good a := by
    rw [List.length_eq_countP_add_countP good]
    simp only [Bool.not_eq_true, ← Bool.not_eq_true', Bool.decide_eq_true]
  rw [countP_sweep]
  rcases Nat.le_total l.length b with hshort | hlong
  · rw [List.drop_of_length_le hshort]
    exact Nat.zero_le _
  · rw [List.length_take, Nat.min_eq_left hlong] at htake
    omega

/-- **The worst order.** If the elements that stay come first, they keep their places. -/
theorem countP_sweep_badFirst {bad rest : List α} (hbad : ∀ a ∈ bad, good a = false)
    (hrest : ∀ a ∈ rest, good a = true) (b : ℕ) :
    (sweep good b (bad ++ rest)).countP good = rest.length - (b - bad.length) := by
  have hnone : ∀ l' : List α, l'.Sublist bad → l'.countP good = 0 := fun l' hl' =>
    List.countP_eq_zero.mpr fun a ha => by simp [hbad a (hl'.mem ha)]
  have hall : (rest.drop (b - bad.length)).countP good = (rest.drop (b - bad.length)).length :=
    List.countP_eq_length.mpr fun a ha => hrest a (List.mem_of_mem_drop ha)
  rw [countP_sweep, List.drop_append, List.countP_append, hnone _ (List.drop_sublist _ _), hall,
    List.length_drop, Nat.zero_add]

end MctraderData.Lib
