import Mathlib.Data.List.Basic

/-!
# The last write decides

A slot takes the values that a sequence of events writes to it; an event may also leave the
slot alone. What the slot holds at the end is what the last event that wrote it wrote, or
what it held at the start.
-/

namespace MctraderData.Lib

variable {E V : Type} (writes : E → Option V)

/-- The slot after a sequence of events. -/
def slotAfter (v : V) (events : List E) : V :=
  events.foldl (fun v e => (writes e).getD v) v

theorem slotAfter_append (v : V) (xs ys : List E) :
    slotAfter writes v (xs ++ ys) = slotAfter writes (slotAfter writes v xs) ys := by
  unfold slotAfter
  rw [List.foldl_append]

variable {writes} {v : V} {events : List E}

/-- Events that leave the slot alone. -/
theorem slotAfter_of_unwritten (h : ∀ e ∈ events, writes e = none) :
    slotAfter writes v events = v := by
  induction events with
  | nil => rfl
  | cons e rest ih =>
    have hrest := ih fun e' he' => h e' (List.mem_cons_of_mem e he')
    unfold slotAfter at hrest ⊢
    rw [List.foldl_cons, h e List.mem_cons_self]
    exact hrest

/-- Either nothing writes the slot, or there is a last event that does. -/
theorem unwritten_or_last (writes : E → Option V) (events : List E) :
    (∀ e ∈ events, writes e = none) ∨ ∃ ys e zs w, events = ys ++ e :: zs ∧ writes e = some w ∧
      ∀ e' ∈ zs, writes e' = none := by
  induction events with
  | nil => exact Or.inl fun e he => absurd he List.not_mem_nil
  | cons e rest ih =>
    rcases ih with hnone | ⟨ys, e', zs, w, hsplit, hw, hzs⟩
    · cases hw : writes e with
      | none => exact Or.inl (List.forall_mem_cons.mpr ⟨hw, hnone⟩)
      | some w => exact Or.inr ⟨[], e, rest, w, rfl, hw, hnone⟩
    · exact Or.inr ⟨e :: ys, e', zs, w, by rw [hsplit, List.cons_append], hw, hzs⟩

theorem slotAfter_last {w : V} {ys zs : List E} {e : E} (hw : writes e = some w)
    (hzs : ∀ e' ∈ zs, writes e' = none) : slotAfter writes v (ys ++ e :: zs) = w := by
  rw [slotAfter_append, ← List.singleton_append, slotAfter_append, slotAfter_of_unwritten hzs]
  unfold slotAfter
  rw [List.foldl_cons, hw]
  rfl

/-- Two start values end alike unless nothing writes the slot. -/
theorem slotAfter_eq_iff {v' : V} :
    slotAfter writes v events = slotAfter writes v' events ↔
      ((∀ e ∈ events, writes e = none) → v = v') := by
  rcases unwritten_or_last writes events with hnone | ⟨ys, e, zs, w, rfl, hw, hzs⟩
  · rw [slotAfter_of_unwritten hnone, slotAfter_of_unwritten hnone]
    exact ⟨fun h _ => h, fun h => h hnone⟩
  · rw [slotAfter_last hw hzs, slotAfter_last hw hzs]
    refine ⟨fun _ hnone => ?_, fun _ => rfl⟩
    have := hnone e (List.mem_append_right ys List.mem_cons_self)
    rw [hw] at this
    exact nomatch this

/-- Some events are left out. The slot ends as with all of them when each one left out that
nothing overwrites repeats what the slot holds without it. -/
theorem slotAfter_filter_eq_iff {keep : E → Bool} :
    slotAfter writes v (events.filter keep) = slotAfter writes v events ↔
      ∀ ys e zs w, events = ys ++ e :: zs → keep e = false → writes e = some w →
        (∀ e' ∈ zs, writes e' = none) → slotAfter writes v (ys.filter keep) = w := by
  have hfilter : ∀ zs : List E, (∀ e' ∈ zs, writes e' = none) →
      ∀ e' ∈ zs.filter keep, writes e' = none :=
    fun zs hzs e' he' => hzs e' (List.mem_of_mem_filter he')
  constructor
  · intro h ys e zs w hsplit hkeep hw hzs
    subst hsplit
    rw [slotAfter_last hw hzs, List.filter_append, List.filter_cons_of_neg (by simp [hkeep]),
      slotAfter_append, slotAfter_of_unwritten (hfilter zs hzs)] at h
    exact h
  · intro h
    rcases unwritten_or_last writes events with hnone | ⟨ys, e, zs, w, hsplit, hw, hzs⟩
    · rw [slotAfter_of_unwritten hnone, slotAfter_of_unwritten (hfilter events hnone)]
    · cases hkeep : keep e with
      | false =>
        have hys := h ys e zs w hsplit hkeep hw hzs
        subst hsplit
        rw [slotAfter_last hw hzs, List.filter_append, List.filter_cons_of_neg (by simp [hkeep]),
          slotAfter_append, slotAfter_of_unwritten (hfilter zs hzs)]
        exact hys
      | true =>
        subst hsplit
        rw [slotAfter_last hw hzs, List.filter_append, List.filter_cons_of_pos hkeep,
          slotAfter_last hw (hfilter zs hzs)]

end MctraderData.Lib
