import Mathlib.Data.List.Pairwise
import Mathlib.Data.List.Sort

/-!
# Sorting by a key, and what of the input order is left

`List.insertionSort` is stable: elements with one key keep the order they came in. So
the sorted list is a function of the *set* of elements exactly when no two of them
share a key.

* `filter_insertionSort` — a selection of the sorted list is the selection, sorted.
* `sort_eq_of_perm` — with distinct keys the input order is gone.
* `sort_reverse_ne` — two elements with one key show it: the reversed input sorts to
  another list.
-/

namespace MctraderData.Lib

variable {α β γ : Type}

section

variable {r r' : α → α → Prop} [DecidableRel r] [DecidableRel r']

/-- Sorting compares an entry only with entries behind it. -/
theorem insertionSort_congr {l : List α} (h : l.Pairwise fun a b => r a b ↔ r' a b) :
    l.insertionSort r = l.insertionSort r' := by
  have hinsert : ∀ (a : α) (s : List α), (∀ b ∈ s, r a b ↔ r' a b) →
      s.orderedInsert r a = s.orderedInsert r' a := by
    intro a s
    induction s with
    | nil => exact fun _ => rfl
    | cons b s ih =>
      intro hs
      have htail := ih fun c hc => hs c (List.mem_cons_of_mem b hc)
      rw [List.orderedInsert_cons, List.orderedInsert_cons, htail]
      exact if_congr (hs b List.mem_cons_self) rfl rfl
  induction l with
  | nil => rfl
  | cons a l ih =>
    obtain ⟨ha, hl⟩ := List.pairwise_cons.mp h
    rw [List.insertionSort_cons, List.insertionSort_cons, ih hl]
    exact hinsert a _ fun b hb => ha b ((List.mem_insertionSort r').mp hb)

theorem orderedInsert_of_forall {a : α} {s : List α} (h : ∀ b ∈ s, r a b) :
    s.orderedInsert r a = a :: s := by
  cases s with
  | nil => rfl
  | cons b s => rw [List.orderedInsert_cons, if_pos (h b List.mem_cons_self)]

variable [IsTrans α r] [Std.Total r]

/-- A stable sort may be cut before or after. -/
theorem filter_insertionSort (p : α → Bool) (l : List α) :
    (l.insertionSort r).filter p = (l.filter p).insertionSort r := by
  have hinsert : ∀ (a : α) (s : List α), s.Pairwise r → (s.orderedInsert r a).filter p =
      if p a = true then (s.filter p).orderedInsert r a else s.filter p := by
    intro a s
    induction s with
    | nil =>
      intro _
      rw [List.orderedInsert_nil, List.filter_singleton]
      cases p a <;> rfl
    | cons b s ih =>
      intro hs
      obtain ⟨hb, hs'⟩ := List.pairwise_cons.mp hs
      rw [List.orderedInsert_cons]
      by_cases hab : r a b
      · have hall : ∀ c ∈ (b :: s).filter p, r a c := by
          intro c hc
          rcases List.mem_cons.mp (List.mem_of_mem_filter hc) with rfl | hc
          · exact hab
          · exact IsTrans.trans a b c hab (hb c hc)
        rw [if_pos hab, List.filter_cons, orderedInsert_of_forall hall]
      · rw [if_neg hab, List.filter_cons, ih hs', List.filter_cons]
        cases hpa : p a with
        | true =>
          cases p b with
          | true => simp only [if_true, List.orderedInsert_cons, if_neg hab]
          | false => simp only [if_true, Bool.false_eq_true, if_false]
        | false => simp only [Bool.false_eq_true, if_false]
  induction l with
  | nil => rfl
  | cons a l ih =>
    rw [List.insertionSort_cons, hinsert a _ (List.pairwise_insertionSort r l), ih,
      List.filter_cons]
    split <;> rfl

end

/-! ## by a key -/

variable [LinearOrder β] {key : α → β} {l l' : List α}

instance total_key (key : α → β) : Std.Total fun a b : α => key a ≤ key b :=
  ⟨fun a b => le_total (key a) (key b)⟩

instance trans_key (key : α → β) : IsTrans α fun a b => key a ≤ key b := ⟨fun _ _ _ => le_trans⟩

/-- No two elements have one key. -/
def DistinctKeys (key : α → β) (l : List α) : Prop := l.Pairwise fun a b => key a ≠ key b

omit [LinearOrder β] in
theorem DistinctKeys.eq_of_key_eq (h : DistinctKeys key l) {a b : α} (ha : a ∈ l) (hb : b ∈ l)
    (hkey : key a = key b) : a = b := by
  have : Std.Symm fun a b : α => key a ≠ key b := ⟨fun _ _ hab => hab.symm⟩
  by_contra hne
  exact h.forall ha hb hne hkey

/-- **With distinct keys** two orders of the same elements sort to one list. -/
theorem sort_eq_of_perm (hperm : l.Perm l') (h : DistinctKeys key l) :
    l.insertionSort (fun a b => key a ≤ key b) = l'.insertionSort fun a b => key a ≤ key b := by
  have hsorted := hperm.trans (List.perm_insertionSort (fun a b => key a ≤ key b) l').symm
  refine List.Perm.eq_of_pairwise ?_ (List.pairwise_insertionSort _ _)
    (List.pairwise_insertionSort _ _) ((List.perm_insertionSort _ l).trans hsorted)
  intro a b ha hb hab hba
  rw [List.mem_insertionSort] at ha hb
  exact h.eq_of_key_eq ha (hperm.mem_iff.mpr hb) (le_antisymm hab hba)

theorem not_nodup_of_both_orders {l : List γ} {a b : γ} (hab : [a, b].Sublist l)
    (hba : [b, a].Sublist l) : ¬ l.Nodup := by
  intro hnodup
  induction l with
  | nil => cases hab
  | cons c rest ih =>
    obtain ⟨hc, hrest⟩ := List.nodup_cons.mp hnodup
    rcases List.sublist_cons_iff.mp hab with hab' | ⟨r, hr, hab'⟩
    · rcases List.sublist_cons_iff.mp hba with hba' | ⟨r', hr', hba'⟩
      · exact ih hab' hba' hrest
      · -- `b` is the head, and again below it
        cases hr'
        exact hc (hab'.subset (by simp))
    · cases hr
      rcases List.sublist_cons_iff.mp hba with hba' | ⟨r', hr', hba'⟩
      · exact hc (hba'.subset (by simp))
      · cases hr'
        exact hc (hba'.subset (by simp))

/-- **Ties keep the input order**: if two elements share a key, reversing the input
changes the sorted list, also when it is seen through a map that tells them apart. -/
theorem sort_reverse_ne {f : α → γ} (hnodup : (l.map f).Nodup) (h : ¬ DistinctKeys key l) :
    (l.reverse.insertionSort fun a b => key a ≤ key b).map f ≠
      (l.insertionSort fun a b => key a ≤ key b).map f := by
  intro heq
  have htie : ∃ a b, [a, b].Sublist l ∧ key a = key b := by
    by_contra hno
    refine h (List.pairwise_iff_forall_sublist.mpr fun hab hkey => hno ⟨_, _, hab, hkey⟩)
  obtain ⟨a, b, hab, hkey⟩ := htie
  have hba : [b, a].Sublist l.reverse := by simpa using hab.reverse
  have hsort := List.pair_sublist_insertionSort (r := fun a b => key a ≤ key b) hkey.le hab
  have hsort' := List.pair_sublist_insertionSort (r := fun a b => key a ≤ key b) hkey.ge hba
  have hperm := (List.perm_insertionSort (fun a b => key a ≤ key b) l).map f
  refine not_nodup_of_both_orders (hsort.map f) ?_ (hperm.nodup_iff.mpr hnodup)
  rw [← heq]
  exact hsort'.map f

end MctraderData.Lib
