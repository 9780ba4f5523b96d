/-!
# Computations that raise

A computation in `Except` either raises or returns. Whether it raises is settled by its
parts: a result that is only post-processed raises when its computation does, and a
sequence raises when one of its members does, with the exception of the first that does.
-/

namespace MctraderData.Lib

variable {ε α β : Type}

/-- The computation raises. -/
def Raises (m : Except ε α) : Prop := ∃ e, m = .error e

theorem raises_error (e : ε) : Raises (.error e : Except ε α) := ⟨e, rfl⟩

theorem not_raises_ok (a : α) : ¬ Raises (.ok a : Except ε α) := fun ⟨_, h⟩ => nomatch h

variable {m : Except ε α}

theorem exists_ok_of_not_raises (h : ¬ Raises m) : ∃ a, m = .ok a := by
  cases m with
  | error e => exact absurd (raises_error e) h
  | ok a => exact ⟨a, rfl⟩

variable {f : α → Except ε β}

/-- What a sequence of two returns, the second returns from the first's result. -/
theorem exists_of_bind_ok {b : β} (h : (m >>= f) = .ok b) : ∃ a, m = .ok a ∧ f a = .ok b := by
  cases m with
  | error e => exact nomatch h
  | ok a => exact ⟨a, rfl, h⟩

theorem raises_bind_pure {f : α → β} : Raises (m >>= fun a => pure (f a)) ↔ Raises m := by
  cases m with
  | error e => exact iff_of_true (raises_error e) (raises_error e)
  | ok a => exact iff_of_false (not_raises_ok _) (not_raises_ok a)

theorem raises_map {f : α → β} : Raises (m.map f) ↔ Raises m :=
  raises_bind_pure

/-- Computations that are alike through `f` raise alike, or return alike through `f`. -/
theorem except_map_eq {m' : Except ε α} {f : α → β} (h : m.map f = m'.map f) :
    (∃ e, m = .error e ∧ m' = .error e) ∨ ∃ a a', m = .ok a ∧ m' = .ok a' ∧ f a = f a' := by
  cases m with
  | error e =>
    cases m' with
    | error e' =>
      cases h
      exact Or.inl ⟨e, rfl, rfl⟩
    | ok a' => cases h
  | ok a =>
    cases m' with
    | error e' => cases h
    | ok a' => exact Or.inr ⟨a, a', rfl, rfl, Except.ok.inj h⟩

variable {l : List α}

/-- A sequence of computations raises when one of them does. -/
theorem raises_mapM : Raises (l.mapM f) ↔ ∃ x ∈ l, Raises (f x) := by
  induction l with
  | nil =>
    constructor
    · intro h
      exact absurd h (not_raises_ok _)
    · intro ⟨x, hx, _⟩
      exact absurd hx List.not_mem_nil
  | cons x rest ih =>
    rw [List.mapM_cons]
    cases hf : f x with
    | error e =>
      exact ⟨fun _ => ⟨x, List.mem_cons_self, e, hf⟩, fun _ => raises_error e⟩
    | ok b =>
      have hx : ¬ Raises (f x) := hf ▸ not_raises_ok b
      have hcons : (∃ y ∈ x :: rest, Raises (f y)) ↔ ∃ y ∈ rest, Raises (f y) := by
        simp [hx]
      rw [hcons, ← ih]
      exact raises_bind_pure

theorem mapM_eq_ok {g : α → β} (h : ∀ x ∈ l, f x = .ok (g x)) : l.mapM f = .ok (l.map g) := by
  induction l with
  | nil => rfl
  | cons x rest ih =>
    rw [List.mapM_cons, h x List.mem_cons_self, ih fun y hy => h y (List.mem_cons_of_mem x hy)]
    rfl

theorem mapM_eq_error {e : ε} (hne : l ≠ []) (h : ∀ x ∈ l, f x = .error e) :
    l.mapM f = .error e := by
  obtain ⟨x, rest, rfl⟩ := List.exists_cons_of_ne_nil hne
  rw [List.mapM_cons, h x List.mem_cons_self]
  rfl

/-- Computations that raise alike, raise alike in sequence. -/
theorem mapM_error_congr {g : α → Except ε β} (h : ∀ x ∈ l, ∀ e, f x = .error e ↔ g x = .error e)
    {e : ε} (he : l.mapM f = .error e) : l.mapM g = .error e := by
  induction l with
  | nil => exact nomatch he
  | cons x rest ih =>
    have hx := h x List.mem_cons_self
    rw [List.mapM_cons] at he ⊢
    cases hf : f x with
    | error e' =>
      rw [hf] at he
      rw [(hx e').mp hf]
      exact he
    | ok b =>
      rw [hf] at he
      cases hg : g x with
      | error e' =>
        have hfe : f x = .error e' := (hx e').mpr hg
        rw [hf] at hfe
        exact nomatch hfe
      | ok c =>
        have hrest : rest.mapM f = .error e := by
          cases hr : rest.mapM f with
          | error e' =>
            rw [hr] at he
            exact congrArg _ (Except.error.inj he)
          | ok bs =>
            rw [hr] at he
            exact nomatch he
        have hrest' := ih (fun y hy => h y (List.mem_cons_of_mem x hy)) hrest
        show (rest.mapM g >>= fun cs => pure (c :: cs)) = .error e
        rw [hrest']
        rfl

end MctraderData.Lib
