import Mathlib.Data.List.AList

/-!
# Finite maps that agree off some keys

Frame reasoning for programs that change a finite map at a few keys: `AgreeOff S m m'`
says that `m'` differs from `m` at most at keys in `S`, both in what a lookup returns
and in the order in which the other keys are listed. It is reflexive and transitive,
and one insertion or erasure satisfies it for the key it touches.
-/

namespace MctraderData.Lib

variable {α β : Type} [DecidableEq α] {a : α}

variable {m : AList fun _ : α => β}

theorem exists_lookup {k : α} (h : k ∈ m) : ∃ b, m.lookup k = some b :=
  Option.isSome_iff_exists.mp (AList.lookup_isSome.mpr h)

theorem lookup_insert_eq_some {k : α} {b b' : β} :
    (m.insert a b).lookup k = some b' ↔ k = a ∧ b = b' ∨ k ≠ a ∧ m.lookup k = some b' := by
  by_cases hk : k = a
  · subst hk
    simp
  · simp [hk, AList.lookup_insert_ne hk]

theorem lookup_erase_eq_some {k : α} {b : β} :
    (m.erase a).lookup k = some b ↔ k ≠ a ∧ m.lookup k = some b := by
  by_cases hk : k = a
  · subst hk
    simp
  · simp [hk, AList.lookup_erase_ne hk]

theorem lookup_singleton_eq_some {k : α} {b b' : β}
    (h : (AList.singleton a b : AList fun _ : α => β).lookup k = some b') : k = a ∧ b' = b := by
  rw [← AList.insert_empty, lookup_insert_eq_some] at h
  simpa [eq_comm] using h

/-- Writing a key again only moves it in the listing. -/
theorem keys_insert_perm (h : a ∈ m.keys) (b : β) : (m.insert a b).keys.Perm m.keys := by
  rw [AList.keys_insert]
  exact (List.perm_cons_erase h).symm

theorem keys_insert_of_not_mem (h : a ∉ m.keys) (b : β) : (m.insert a b).keys = a :: m.keys := by
  rw [AList.keys_insert, List.erase_of_not_mem h]

theorem keys_erase_eq_filter (m : AList fun _ : α => β) (a : α) :
    (m.erase a).keys = m.keys.filter fun k => decide (k ≠ a) := by
  rw [AList.keys_erase, m.keys_nodup.erase_eq_filter]
  refine List.filter_congr fun k _ => ?_
  by_cases hk : k = a <;> simp [hk]

/-- A listing in which nothing else is selected has the written key, once. -/
theorem filter_keys_insert {f : α → Bool} (hf : f a = true) (h : ∀ k ∈ m.keys.filter f, k = a)
    (b : β) : (m.insert a b).keys.filter f = [a] := by
  rw [AList.keys_insert, List.filter_cons_of_pos hf]
  congr 1
  refine List.filter_eq_nil_iff.mpr fun k hk hfk => ?_
  obtain ⟨hne, hmem⟩ := (m.keys_nodup.mem_erase_iff).mp hk
  exact hne (h k (List.mem_filter.mpr ⟨hmem, hfk⟩))

/-- `m'` differs from `m` at most at the keys in `S`. -/
structure AgreeOff (S : α → Prop) (m m' : AList fun _ : α => β) : Prop where
  lookup : ∀ k, ¬ S k → m'.lookup k = m.lookup k
  keys : ∀ f : α → Bool, (∀ k, S k → f k = false) → m'.keys.filter f = m.keys.filter f

namespace AgreeOff

variable {S T : α → Prop} {m m' m'' : AList fun _ : α => β}

theorem refl (S : α → Prop) (m : AList fun _ : α => β) : AgreeOff S m m :=
  ⟨fun _ _ => rfl, fun _ _ => rfl⟩

theorem trans (h : AgreeOff S m m') (h' : AgreeOff S m' m'') : AgreeOff S m m'' :=
  ⟨fun k hk => (h'.lookup k hk).trans (h.lookup k hk),
    fun f hf => (h'.keys f hf).trans (h.keys f hf)⟩

theorem mono (h : AgreeOff S m m') (hST : ∀ k, S k → T k) : AgreeOff T m m' :=
  ⟨fun k hk => h.lookup k fun hS => hk (hST k hS), fun f hf => h.keys f fun k hS => hf k (hST k hS)⟩

theorem of_eq (h : m' = m) : AgreeOff S m m' := h ▸ refl S m

private theorem filter_erase {l : List α} {f : α → Bool} (h : f a = false) :
    (l.erase a).filter f = l.filter f := by
  rw [← List.erase_filter]
  refine List.erase_of_not_mem fun hmem => ?_
  rw [List.mem_filter, h] at hmem
  exact absurd hmem.2 (by decide)

theorem insert (ha : S a) (b : β) (m : AList fun _ : α => β) :
    AgreeOff S m (m.insert a b) where
  lookup k hk := AList.lookup_insert_ne fun heq => hk (heq ▸ ha)
  keys f hf := by
    rw [AList.keys_insert, List.filter_cons_of_neg (by rw [hf a ha]; decide),
      filter_erase (hf a ha)]

theorem erase (ha : S a) (m : AList fun _ : α => β) : AgreeOff S m (m.erase a) where
  lookup k hk := AList.lookup_erase_ne fun heq => hk (heq ▸ ha)
  keys f hf := by rw [AList.keys_erase, filter_erase (hf a ha)]

end AgreeOff

end MctraderData.Lib
