import Mathlib.Data.List.Dedup
import Mathlib.Data.List.Induction
import Mathlib.Data.Prod.Lex
import MctraderData.Lib.StableSort

/-!
# Two recordings of one stream

A stream is recorded twice. Each recording keeps the order of the stream, at its own times
of receipt; the two are merged in order of time, and of several entries with one key the
first is kept. Here is when that gives one recording back: its entries are distinct, and it
has every entry that the other has.

A cut of the recordings by time of receipt is allowed for. Before the main result stand the
facts about the first entries of a list on which it rests.
-/

namespace MctraderData.Lib

variable {α K : Type}

/-! ## first entries -/

section

variable [DecidableEq K]

/-- The entries of a list, each at its first place. -/
def firstSeen (l : List K) : List K :=
  l.foldl (fun seen k => if k ∈ seen then seen else seen ++ [k]) []

theorem firstSeen_concat (l : List K) (k : K) :
    firstSeen (l ++ [k]) = if k ∈ firstSeen l then firstSeen l else firstSeen l ++ [k] := by
  unfold firstSeen
  rw [List.foldl_append]
  rfl

theorem firstSeen_eq_dedup (l : List K) : firstSeen l = l.reverse.dedup.reverse := by
  induction l using List.reverseRecOn with
  | nil => rfl
  | append_singleton l k ih =>
    simp only [firstSeen_concat, ih, List.reverse_concat, List.mem_reverse, List.dedup_cons']
    split
    · rfl
    · rw [List.reverse_cons]

theorem mem_firstSeen {l : List K} {k : K} : k ∈ firstSeen l ↔ k ∈ l := by
  rw [firstSeen_eq_dedup, List.mem_reverse, List.mem_dedup, List.mem_reverse]

theorem nodup_firstSeen (l : List K) : (firstSeen l).Nodup := by
  rw [firstSeen_eq_dedup, List.nodup_reverse]
  exact List.nodup_dedup _

theorem firstSeen_sublist (l : List K) : (firstSeen l).Sublist l := by
  rw [firstSeen_eq_dedup]
  exact List.reverse_sublist.mp (by simpa using List.dedup_sublist l.reverse)

/-- First entries stand in the order of their first places. -/
theorem firstSeen_pairwise (l : List K) :
    (firstSeen l).Pairwise fun k k' => l.idxOf k < l.idxOf k' := by
  induction l using List.reverseRecOn with
  | nil => exact List.Pairwise.nil
  | append_singleton l k ih =>
    have hold : ∀ j ∈ l, (l ++ [k]).idxOf j = l.idxOf j := fun j hj => List.idxOf_append_of_mem hj
    have hkeep : (firstSeen l).Pairwise fun a b => (l ++ [k]).idxOf a < (l ++ [k]).idxOf b := by
      refine ih.imp_of_mem fun ha hb hab => ?_
      rw [hold _ (mem_firstSeen.mp ha), hold _ (mem_firstSeen.mp hb)]
      exact hab
    rw [firstSeen_concat]
    split
    · exact hkeep
    · rename_i hmem
      refine List.pairwise_append.mpr ⟨hkeep, List.pairwise_singleton _ k, fun a ha b hb => ?_⟩
      rw [List.mem_singleton.mp hb, hold a (mem_firstSeen.mp ha),
        List.idxOf_append_of_notMem fun h => hmem (mem_firstSeen.mpr h)]
      have := List.idxOf_lt_length_of_mem (mem_firstSeen.mp ha)
      omega

/-- A list with distinct entries is the first entries of every list that has the same
entries in the same order of first places. -/
theorem firstSeen_eq {l m : List K} (hm : m.Nodup) (hmem : ∀ k, k ∈ l ↔ k ∈ m)
    (horder : ∀ k ∈ m, ∀ k' ∈ m, m.idxOf k' < m.idxOf k → l.idxOf k' < l.idxOf k) :
    firstSeen l = m := by
  have hperm : (firstSeen l).Perm m :=
    (List.perm_ext_iff_of_nodup (nodup_firstSeen l) hm).mpr fun k =>
      mem_firstSeen.trans (hmem k)
  have hsorted : m.Pairwise fun k k' => l.idxOf k < l.idxOf k' := by
    have hidx : m.Pairwise fun k k' => m.idxOf k < m.idxOf k' := by
      rw [List.pairwise_iff_getElem]
      intro i j hi hj hij
      rw [hm.idxOf_getElem i hi, hm.idxOf_getElem j hj]
      exact hij
    exact hidx.imp_of_mem fun hk hk' h => horder _ hk' _ hk h
  exact List.Perm.eq_of_pairwise (fun k k' _ _ h h' => absurd h (by omega))
    (firstSeen_pairwise l) hsorted hperm

/-! ## one entry for each key -/

/-- A dict with one entry under each key: the first one, or a later one that wins over the
entry there. -/
def keepStep (key : α → K) (wins : α → α → Bool) (byKey : List (K × α)) (x : α) : List (K × α) :=
  match byKey.find? fun p => decide (p.1 = key x) with
  | none => byKey ++ [(key x, x)]
  | some (_, existing) =>
    if wins existing x then byKey.map fun p => if p.1 = key x then (key x, x) else p else byKey

/-- Each entry stands under its own key. -/
def UnderOwnKey (key : α → K) (byKey : List (K × α)) : Prop := ∀ p ∈ byKey, key p.2 = p.1

variable {byKey : List (K × α)}

theorem find?_key_eq_none {k : K} :
    (byKey.find? fun p => decide (p.1 = k)) = none ↔ k ∉ byKey.map Prod.fst := by
  rw [List.find?_eq_none, List.mem_map]
  constructor
  · intro h ⟨p, hp, hk⟩
    exact h p hp (decide_eq_true hk)
  · intro h p hp hk
    exact h ⟨p, hp, of_decide_eq_true hk⟩

variable {key : α → K} {wins : α → α → Bool}

theorem keepStep_of_new {x : α} (h : key x ∉ byKey.map Prod.fst) :
    keepStep key wins byKey x = byKey ++ [(key x, x)] := by
  simp only [keepStep, find?_key_eq_none.mpr h]

/-- The entry under a key may be exchanged for another of the same key. -/
theorem keepStep_of_old {x : α} (h : key x ∈ byKey.map Prod.fst) :
    keepStep key wins byKey x = byKey ∨
      keepStep key wins byKey x = byKey.map fun p => if p.1 = key x then (key x, x) else p := by
  cases hfind : byKey.find? fun p => decide (p.1 = key x) with
  | none => exact absurd h (find?_key_eq_none.mp hfind)
  | some found =>
    simp only [keepStep, hfind]
    split
    · exact Or.inr rfl
    · exact Or.inl rfl

theorem keepStep_keys (hown : UnderOwnKey key byKey) (x : α) :
    UnderOwnKey key (keepStep key wins byKey x) ∧
      (keepStep key wins byKey x).map Prod.fst =
        if key x ∈ byKey.map Prod.fst then byKey.map Prod.fst
        else byKey.map Prod.fst ++ [key x] := by
  by_cases hmem : key x ∈ byKey.map Prod.fst
  · rw [if_pos hmem]
    rcases keepStep_of_old hmem with hstep | hstep
    · rw [hstep]
      exact ⟨hown, rfl⟩
    · rw [hstep]
      constructor
      · intro p hp
        obtain ⟨p', hp', rfl⟩ := List.mem_map.mp hp
        split
        · rfl
        · exact hown p' hp'
      · rw [List.map_map]
        apply List.map_congr_left
        intro p hp
        show (if p.1 = key x then (key x, x) else p).1 = p.1
        split
        · rename_i hkey
          exact hkey.symm
        · rfl
  · rw [if_neg hmem, keepStep_of_new hmem]
    constructor
    · intro p hp
      rcases List.mem_append.mp hp with hp | hp
      · exact hown p hp
      · rw [List.mem_singleton.mp hp]
    · rw [List.map_append, List.map_singleton]

variable (key : α → K) (wins : α → α → Bool)

/-- The keys are those of the list, in the order of their first places. -/
theorem foldl_keepStep_keys (l : List α) :
    UnderOwnKey key (l.foldl (keepStep key wins) []) ∧
      (l.foldl (keepStep key wins) []).map Prod.fst = firstSeen (l.map key) := by
  induction l using List.reverseRecOn with
  | nil => exact ⟨fun p hp => absurd hp List.not_mem_nil, rfl⟩
  | append_singleton l x ih =>
    obtain ⟨hown, hkeys⟩ := ih
    rw [List.foldl_concat, List.map_append, List.map_singleton, firstSeen_concat, ← hkeys]
    exact keepStep_keys hown x

/-- What is kept is in the list. -/
theorem foldl_keepStep_subset (l : List α) : (l.foldl (keepStep key wins) []).map Prod.snd ⊆ l := by
  induction l using List.reverseRecOn with
  | nil => exact List.Subset.refl []
  | append_singleton l x ih =>
    have hold : ∀ p ∈ l.foldl (keepStep key wins) [], p.2 ∈ l ++ [x] := fun p hp =>
      List.mem_append_left [x] (ih (List.mem_map_of_mem hp))
    rw [List.foldl_concat]
    intro y hy
    obtain ⟨p, hp, rfl⟩ := List.mem_map.mp hy
    by_cases hmem : key x ∈ (l.foldl (keepStep key wins) []).map Prod.fst
    · rcases keepStep_of_old hmem with hstep | hstep
      · rw [hstep] at hp
        exact hold p hp
      · rw [hstep] at hp
        obtain ⟨q, hq, rfl⟩ := List.mem_map.mp hp
        split
        · exact List.mem_append_right l List.mem_cons_self
        · exact hold q hq
    · rw [keepStep_of_new hmem] at hp
      rcases List.mem_append.mp hp with hp | hp
      · exact hold p hp
      · rw [List.mem_singleton.mp hp]
        exact List.mem_append_right l List.mem_cons_self

/-- Entries with distinct keys are all kept. -/
theorem foldl_keepStep_of_nodup {l : List α} (h : (l.map key).Nodup) :
    l.foldl (keepStep key wins) [] = l.map fun x => (key x, x) := by
  induction l using List.reverseRecOn with
  | nil => rfl
  | append_singleton l x ih =>
    rw [List.map_append, List.map_singleton, List.nodup_append] at h
    rw [List.foldl_concat, ih h.1, keepStep_of_new, List.map_append, List.map_singleton]
    intro hmem
    rw [List.map_map] at hmem
    exact h.2.2 _ hmem _ (List.mem_singleton_self _) rfl

end

/-! ## two recordings -/

/-- An entry of a cut list splits the list itself. -/
theorem split_of_filter {p : α → Bool} {l xs ys : List α} {x : α}
    (h : l.filter p = xs ++ x :: ys) :
    ∃ us vs, l = us ++ x :: vs ∧ us.filter p = xs ∧ p x = true := by
  obtain ⟨l₁, l₂, rfl, hxs, hys⟩ := List.filter_eq_append_iff.mp h
  obtain ⟨ws, vs, rfl, hws, hx, _⟩ := List.filter_eq_cons_iff.mp hys
  refine ⟨l₁ ++ ws, vs, by rw [List.append_assoc], ?_, hx⟩
  rw [List.filter_append, hxs, List.filter_eq_nil_iff.mpr hws, List.append_nil]

/-- What a recording looks at in an entry: a key, the time in it, and the time of receipt. -/
structure Recording (α K : Type) where
  key : α → K
  time : K → Int
  received : α → Int

namespace Recording

variable (rec : Recording α K)

/-- In order of time, and of receipt within one time. -/
def le (x y : α) : Prop :=
  rec.time (rec.key x) < rec.time (rec.key y) ∨
    rec.time (rec.key x) = rec.time (rec.key y) ∧ rec.received x ≤ rec.received y

/-- A merged list `seen` of what two recordings `as` and `bs` of one stream have by the time
of a cut. -/
structure Merged (as bs seen : List α) (fromA cut : α → Bool) : Prop where
  same : as.map rec.key = bs.map rec.key
  orderedA : as.Pairwise rec.le
  orderedB : bs.Pairwise rec.le
  orderedSeen : seen.Pairwise rec.le
  partA : seen.filter fromA = as.filter cut
  partB : seen.filter (fun x => !fromA x) = bs.filter cut
  /-- What was received earlier passes the cut too. -/
  cutDown : ∀ x y, rec.received x ≤ rec.received y → cut y = true → cut x = true

variable {rec} {as bs seen : List α} {fromA cut : α → Bool}

/-- Before the first place of an entry with one time, the entries of that time in front of
it in the stream passed the cut. -/
theorem cut_of_le (hdown : ∀ x y, rec.received x ≤ rec.received y → cut y = true → cut x = true)
    {x y : α} (hle : rec.le x y) (htime : rec.time (rec.key x) = rec.time (rec.key y))
    (hy : cut y = true) : cut x = true := by
  rcases hle with hlt | ⟨_, hrec⟩
  · omega
  · exact hdown x y hrec hy

variable [DecidableEq K] {k : K}

/-- A list at the first place of a key. -/
theorem split_at_first (rec : Recording α K) {l : List α} (hk : k ∈ l.map rec.key) :
    ∃ xs x ys, l = xs ++ x :: ys ∧ rec.key x = k ∧ k ∉ xs.map rec.key ∧
      (l.map rec.key).idxOf k = xs.length := by
  obtain ⟨ks, ks', hsplit, hks⟩ := List.eq_append_cons_of_mem hk
  obtain ⟨xs, rest, rfl, rfl, hrest⟩ := List.map_eq_append_iff.mp hsplit
  obtain ⟨x, ys, rfl, rfl, -⟩ := List.map_eq_cons_iff.mp hrest
  refine ⟨xs, x, ys, rfl, rfl, hks, ?_⟩
  rw [List.map_append, List.idxOf_append_of_notMem hks, List.map_cons, List.idxOf_cons_self,
    Nat.add_zero, List.length_map]

theorem idxOf_lt_of_mem_front {xs : List K} (h : k ∈ xs) (ys : List K) :
    (xs ++ ys).idxOf k < xs.length := by
  rw [List.idxOf_append_of_mem h]
  exact List.idxOf_lt_length_of_mem h

variable (h : rec.Merged as bs seen fromA cut)
include h

/-- The second recording has `k` at `x`. Then `k'`, which stands in front of `k` in the
first recording, is seen before `x`. -/
theorem Merged.seen_before_other {k' : K} {x : α} {xs ys ms ns : List α} {a : α}
    (hseen : seen = xs ++ x :: ys) (hx : fromA x = false) (hsplit : as.filter cut = ms ++ a :: ns)
    (ha : rec.key a = k') (hms : rec.key x ∉ ms.map rec.key) (hns : rec.key x ∈ ns.map rec.key)
    (hne : k' ≠ rec.key x) : k' ∈ xs.map rec.key := by
  have hpartB : bs.filter cut = xs.filter (fun y => !fromA y) ++ x ::
      ys.filter (fun y => !fromA y) := by
    rw [← h.partB, hseen, List.filter_append, List.filter_cons_of_pos (by simp [hx])]
  obtain ⟨us, vs, hbs, hus, hcutx⟩ := split_of_filter hpartB
  obtain ⟨as₁, as₂, has, hms', hcuta⟩ := split_of_filter hsplit
  obtain ⟨c, hc, hkc⟩ := List.mem_map.mp hns
  have hac : rec.le a c := by
    have hord := h.orderedA.filter cut
    rw [hsplit] at hord
    exact (List.pairwise_cons.mp (List.pairwise_append.mp hord).2.1).1 c hc
  have htime : rec.time k' ≤ rec.time (rec.key x) := by
    rw [← ha, ← hkc]
    rcases hac with hlt | ⟨heq, _⟩
    · omega
    · omega
  rcases Int.lt_or_eq_of_le htime with hlt | heq
  · -- an earlier time: the entry of the first recording itself is seen before
    have hmem : a ∈ seen := by
      have hfilter : a ∈ seen.filter fromA := by
        rw [h.partA, hsplit]
        exact List.mem_append_right ms List.mem_cons_self
      exact List.mem_of_mem_filter hfilter
    rw [hseen] at hmem
    rcases List.mem_append.mp hmem with hmem | hmem
    · exact List.mem_map.mpr ⟨a, hmem, ha⟩
    · have hord := h.orderedSeen
      rw [hseen] at hord
      have hxs := (List.pairwise_cons.mp (List.pairwise_append.mp hord).2.1).1
      rcases List.mem_cons.mp hmem with rfl | hmem
      · exact absurd ha.symm hne
      · have hle := hxs a hmem
        rw [← ha] at hlt
        rcases hle with hlt' | ⟨heq', _⟩
        · omega
        · omega
  · -- one time: compare the places in the two recordings
    have hsame := h.same
    rw [has, hbs, List.map_append, List.map_append, List.map_cons, List.map_cons, ha] at hsame
    rcases List.append_eq_append_iff.mp hsame with ⟨ks, hks, hrest⟩ | ⟨ks, hks, hrest⟩
    · cases ks with
      | nil => exact absurd (List.cons.inj hrest).1 hne
      | cons k₁ ks =>
        have hk₁ : k₁ = k' := (List.cons.inj hrest).1.symm
        have hmem : k' ∈ us.map rec.key := by
          rw [hks, hk₁]
          exact List.mem_append_right _ List.mem_cons_self
        obtain ⟨y, hy, hky⟩ := List.mem_map.mp hmem
        have hle : rec.le y x := by
          have hord := h.orderedB
          rw [hbs] at hord
          exact (List.pairwise_append.mp hord).2.2 y hy x List.mem_cons_self
        have hcuty := cut_of_le h.cutDown hle (hky ▸ heq) hcutx
        have hyxs : y ∈ us.filter cut := List.mem_filter.mpr ⟨hy, hcuty⟩
        rw [hus] at hyxs
        exact List.mem_map.mpr ⟨y, List.mem_of_mem_filter hyxs, hky⟩
    · cases ks with
      | nil => exact absurd (List.cons.inj hrest).1.symm hne
      | cons k₁ ks =>
        have hk₁ : k₁ = rec.key x := (List.cons.inj hrest).1.symm
        have hmem : rec.key x ∈ as₁.map rec.key := by
          rw [hks, hk₁]
          exact List.mem_append_right _ List.mem_cons_self
        obtain ⟨z, hz, hkz⟩ := List.mem_map.mp hmem
        have hle : rec.le z a := by
          have hord := h.orderedA
          rw [has] at hord
          exact (List.pairwise_append.mp hord).2.2 z hz a List.mem_cons_self
        have hcutz := cut_of_le h.cutDown hle (by rw [hkz, ha, heq]) hcuta
        have hzms : z ∈ as₁.filter cut := List.mem_filter.mpr ⟨hz, hcutz⟩
        rw [hms'] at hzms
        exact absurd (List.mem_map.mpr ⟨z, hzms, hkz⟩) hms

/-- An entry that the first recording has in front of another is seen before it. -/
theorem Merged.seen_before {k' : K} (hk : k ∈ (as.filter cut).map rec.key)
    (hk' : k' ∈ (as.filter cut).map rec.key)
    (hidx : ((as.filter cut).map rec.key).idxOf k' < ((as.filter cut).map rec.key).idxOf k) :
    (seen.map rec.key).idxOf k' < (seen.map rec.key).idxOf k := by
  have hkSeen : k ∈ seen.map rec.key := by
    rw [← h.partA] at hk
    exact List.map_subset rec.key (List.filter_subset_self _) hk
  obtain ⟨xs, x, ys, hseen, rfl, _, hplace⟩ := split_at_first rec hkSeen
  suffices hfront : k' ∈ xs.map rec.key by
    rw [hplace, hseen, List.map_append]
    have := idxOf_lt_of_mem_front hfront ((x :: ys).map rec.key)
    rwa [List.length_map] at this
  cases hx : fromA x with
  | true =>
    have hpartA : as.filter cut = xs.filter fromA ++ x :: ys.filter fromA := by
      rw [← h.partA, hseen, List.filter_append, List.filter_cons_of_pos hx]
    rw [hpartA, List.map_append, List.map_cons] at hidx
    by_contra hnot
    have hnot' : k' ∉ (xs.filter fromA).map rec.key := fun hmem =>
      hnot (List.map_subset rec.key (List.filter_subset_self _) hmem)
    have hle : ((xs.filter fromA).map rec.key ++ rec.key x :: (ys.filter fromA).map rec.key).idxOf
        (rec.key x) ≤ ((xs.filter fromA).map rec.key).length := by
      by_cases hmem : rec.key x ∈ (xs.filter fromA).map rec.key
      · exact le_of_lt (idxOf_lt_of_mem_front hmem _)
      · rw [List.idxOf_append_of_notMem hmem, List.idxOf_cons_self, Nat.add_zero]
    rw [List.idxOf_append_of_notMem hnot'] at hidx
    omega
  | false =>
    obtain ⟨ms, a, ns, hsplit, ha, hms, hplaceA⟩ := split_at_first rec hk'
    have hne : k' ≠ rec.key x := by
      intro heq
      rw [heq] at hidx
      exact lt_irrefl _ hidx
    rw [hplaceA] at hidx
    rw [hsplit, List.map_append] at hk hidx
    have hxms : rec.key x ∉ ms.map rec.key := by
      intro hmem
      have := idxOf_lt_of_mem_front hmem ((a :: ns).map rec.key)
      rw [List.length_map] at this
      omega
    have hns : rec.key x ∈ ns.map rec.key := by
      rcases List.mem_append.mp hk with hmem | hmem
      · exact absurd hmem hxms
      · rcases List.mem_cons.mp hmem with heq | hmem
        · exact absurd (ha.symm.trans heq.symm) hne
        · exact hmem
    exact h.seen_before_other hseen hx hsplit ha hxms hns hne

/-- The first entries of the merged list are the first recording when its entries are
distinct and it has all that the second has. -/
theorem Merged.firstSeen_eq_iff :
    firstSeen (seen.map rec.key) = (as.filter cut).map rec.key ↔
      ((as.filter cut).map rec.key).Nodup ∧
        ∀ y ∈ bs.filter cut, rec.key y ∈ (as.filter cut).map rec.key := by
  have hparts : ∀ k, k ∈ seen.map rec.key ↔
      k ∈ (as.filter cut).map rec.key ∨ k ∈ (bs.filter cut).map rec.key := by
    intro k
    rw [← h.partA, ← h.partB, List.mem_map, List.mem_map, List.mem_map]
    constructor
    · intro ⟨x, hx, hkx⟩
      cases hfrom : fromA x with
      | true => exact Or.inl ⟨x, List.mem_filter.mpr ⟨hx, hfrom⟩, hkx⟩
      | false => exact Or.inr ⟨x, List.mem_filter.mpr ⟨hx, by simp [hfrom]⟩, hkx⟩
    · intro hor
      rcases hor with ⟨x, hx, hkx⟩ | ⟨x, hx, hkx⟩
      · exact ⟨x, List.mem_of_mem_filter hx, hkx⟩
      · exact ⟨x, List.mem_of_mem_filter hx, hkx⟩
  constructor
  · intro heq
    refine ⟨heq ▸ nodup_firstSeen _, fun y hy => ?_⟩
    rw [← heq, mem_firstSeen, hparts]
    exact Or.inr (List.mem_map_of_mem hy)
  · intro ⟨hnodup, hsub⟩
    refine firstSeen_eq hnodup (fun k => ?_) fun k hk k' hk' hidx => h.seen_before hk hk' hidx
    rw [hparts]
    constructor
    · intro hor
      rcases hor with hmem | hmem
      · exact hmem
      · obtain ⟨y, hy, rfl⟩ := List.mem_map.mp hmem
        exact hsub y hy
    · exact Or.inl

end Recording

end MctraderData.Lib
