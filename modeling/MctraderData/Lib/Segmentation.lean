import MctraderData.Lib.Replicas

/-!
# Cutting a list into chunks

Items arrive one by one and are collected. A *cutter* says when what has been collected is
complete: before an item, which then begins the next chunk, or after it. The result is the
chunks in order, each with the item on whose arrival it was closed, and the rest that is
still open.
-/

namespace MctraderData.Lib

variable {α : Type}

/-- When a chunk is complete. -/
structure Cutter (α : Type) where
  before : List α → α → Bool
  after : List α → Bool

/-- The closed chunks, each with the item that closed it, and the open rest. -/
structure Cut (α : Type) where
  chunks : List (List α × α) := []
  rest : List α := []

namespace Cutter

variable (c : Cutter α)

/-- One item. -/
def step (s : Cut α) (x : α) : Cut α :=
  if c.before s.rest x then ⟨s.chunks ++ [(s.rest, x)], [x]⟩
  else if c.after (s.rest ++ [x]) then ⟨s.chunks ++ [(s.rest ++ [x], x)], []⟩
  else ⟨s.chunks, s.rest ++ [x]⟩

/-- All items. -/
def cut (l : List α) : Cut α := l.foldl c.step {}

theorem cut_concat (l : List α) (x : α) : c.cut (l ++ [x]) = c.step (c.cut l) x := by
  unfold cut
  rw [List.foldl_append]
  rfl

/-- No item is lost, doubled or moved. -/
theorem flatten_cut (l : List α) :
    ((c.cut l).chunks.map Prod.fst).flatten ++ (c.cut l).rest = l := by
  induction l using List.reverseRecOn with
  | nil => rfl
  | append_singleton l x ih =>
    rw [cut_concat]
    unfold step
    split_ifs with hbefore hafter
    · rw [List.map_append, List.flatten_append]
      simp only [List.map_singleton, List.flatten_singleton]
      rw [ih]
    · rw [List.map_append, List.flatten_append]
      simp only [List.map_singleton, List.flatten_singleton, List.append_nil]
      rw [← List.append_assoc, ih]
    · rw [← List.append_assoc, ih]

variable {l : List α}

theorem chunk_sublist {p : List α × α} (hp : p ∈ (c.cut l).chunks) : p.1.Sublist l := by
  have hflatten : p.1.Sublist ((c.cut l).chunks.map Prod.fst).flatten :=
    List.sublist_flatten_of_mem (List.mem_map_of_mem hp)
  have happend := hflatten.trans (List.sublist_append_left _ (c.cut l).rest)
  rw [flatten_cut] at happend
  exact happend

/-- Chunks are closed by items of the list. -/
theorem closer_mem (l : List α) : ∀ p ∈ (c.cut l).chunks, p.2 ∈ l := by
  induction l using List.reverseRecOn with
  | nil =>
    intro p hp
    exact absurd hp List.not_mem_nil
  | append_singleton l x ih =>
    have hold : ∀ p ∈ (c.cut l).chunks, p.2 ∈ l ++ [x] := fun p hp =>
      List.mem_append_left [x] (ih p hp)
    have hnew : ∀ chunk, ∀ p ∈ (c.cut l).chunks ++ [(chunk, x)], p.2 ∈ l ++ [x] := by
      intro chunk p hp
      rcases List.mem_append.mp hp with hp | hp
      · exact hold p hp
      · rw [List.mem_singleton.mp hp]
        exact List.mem_append_right l (List.mem_singleton_self x)
    rw [cut_concat]
    unfold step
    split_ifs with hbefore hafter
    · exact hnew _
    · exact hnew _
    · exact hold

theorem step_append (before chunks : List (List α × α)) (rest : List α) (x : α) :
    c.step ⟨before ++ chunks, rest⟩ x =
      ⟨before ++ (c.step ⟨chunks, rest⟩ x).chunks, (c.step ⟨chunks, rest⟩ x).rest⟩ := by
  unfold step
  split_ifs with hbefore hafter
  · simp only [List.append_assoc]
  · simp only [List.append_assoc]
  · rfl

/-- Closed chunks play no part in what follows. -/
theorem foldl_step (before chunks : List (List α × α)) (rest l : List α) :
    l.foldl c.step ⟨before ++ chunks, rest⟩ =
      ⟨before ++ (l.foldl c.step ⟨chunks, rest⟩).chunks,
        (l.foldl c.step ⟨chunks, rest⟩).rest⟩ := by
  induction l generalizing chunks rest with
  | nil => rfl
  | cons x l ih =>
    rw [List.foldl_cons, List.foldl_cons, step_append]
    exact ih _ _

variable {x : α}

/-- Where an item closes a chunk and begins the next, the two sides are cut apart. -/
theorem cut_append {l' : List α} (hbefore : c.before (c.cut l).rest x = true)
    (hfirst : c.before [] x = false) (hafter : c.after [x] = false) :
    c.cut (l ++ x :: l') =
      ⟨(c.cut l).chunks ++ [((c.cut l).rest, x)] ++ (c.cut (x :: l')).chunks,
        (c.cut (x :: l')).rest⟩ := by
  have hclose : c.step (c.cut l) x = ⟨(c.cut l).chunks ++ [((c.cut l).rest, x)], [x]⟩ :=
    if_pos hbefore
  have hopen : c.step {} x = ⟨[], [x]⟩ :=
    (if_neg (Bool.eq_false_iff.mp hfirst)).trans (if_neg (Bool.eq_false_iff.mp hafter))
  have hleft : c.cut (l ++ x :: l') = l'.foldl c.step (c.step (c.cut l) x) := by
    unfold cut
    rw [List.foldl_append, List.foldl_cons]
  have hright : c.cut (x :: l') = l'.foldl c.step (c.step {} x) := rfl
  rw [hleft, hright, hclose, hopen]
  have hsplit := c.foldl_step ((c.cut l).chunks ++ [((c.cut l).rest, x)]) [] [x] l'
  rw [List.append_nil] at hsplit
  exact hsplit

/-- A cutter that closes a chunk with the item that completes it. -/
def closing (after : List α → Bool) : Cutter α := ⟨fun _ _ => false, after⟩

/-- Complete, by its last item. -/
structure Shortest (after : List α → Bool) (chunk : List α) (x : α) : Prop where
  complete : after chunk = true
  last : chunk.getLast? = some x
  shorter : ∀ p, p <+: chunk → p ≠ chunk → after p = false

/-- No prefix is complete. -/
def Incomplete (after : List α → Bool) (l : List α) : Prop := ∀ p, p <+: l → after p = false

theorem incomplete_nil {after : List α → Bool} (hnil : after [] = false) :
    Incomplete after [] := by
  intro p hp
  rw [List.prefix_nil.mp hp]
  exact hnil

/-- Each chunk is the shortest prefix of what remained that is complete. -/
theorem cut_closing {after : List α → Bool} (hnil : after [] = false) (l : List α) :
    (∀ p ∈ ((closing after).cut l).chunks, Shortest after p.1 p.2) ∧
      Incomplete after ((closing after).cut l).rest := by
  induction l using List.reverseRecOn with
  | nil => exact ⟨fun p hp => absurd hp List.not_mem_nil, incomplete_nil hnil⟩
  | append_singleton l x ih =>
    obtain ⟨hchunks, hrest⟩ := ih
    have hproper : ∀ p, p <+: ((closing after).cut l).rest ++ [x] →
        p ≠ ((closing after).cut l).rest ++ [x] → after p = false := by
      intro p hp hne
      rcases List.prefix_concat_iff.mp hp with heq | hp
      · exact absurd heq hne
      · exact hrest p hp
    rw [cut_concat]
    unfold step
    rw [if_neg (show ¬ (closing after).before ((closing after).cut l).rest x = true from
      Bool.false_ne_true)]
    split_ifs with hafter
    · constructor
      · intro p hp
        rcases List.mem_append.mp hp with hp | hp
        · exact hchunks p hp
        · rw [List.mem_singleton.mp hp]
          exact ⟨hafter, List.getLast?_concat, hproper⟩
      · exact incomplete_nil hnil
    · constructor
      · exact hchunks
      · intro p hp
        by_cases heq : p = ((closing after).cut l).rest ++ [x]
        · rw [heq]
          exact Bool.not_eq_true _ ▸ hafter
        · exact hproper p hp heq

/-! ## one chunk for each key -/

/-- A cutter that closes a chunk before an item that breaks with the chunk's first one. -/
def breaking (breaks : α → α → Bool) : Cutter α where
  before := fun chunk x => chunk.head?.any fun first => breaks first x
  after := fun _ => false

section

variable {K : Type} [DecidableEq K] (key : α → K)

/-- The items with a key. -/
def group (l : List α) (k : K) : List α := l.filter (key · = k)

theorem group_concat_self (l : List α) (x : α) :
    group key (l ++ [x]) (key x) = group key l (key x) ++ [x] := by
  simp [group]

theorem group_concat_ne {k : K} (hne : key x ≠ k) (l : List α) :
    group key (l ++ [x]) k = group key l k := by
  simp [group, hne]

theorem map_group_concat {ks : List K} (hx : key x ∉ ks) (l : List α) :
    ks.map (group key (l ++ [x])) = ks.map (group key l) := by
  apply List.map_congr_left
  intro k hk
  exact group_concat_ne key (fun heq => hx (heq ▸ hk)) l

/-- A chunk for each key but the last, whose items are still open. -/
structure Grouped (l : List α) (last : α) (s : Cut α) (ks : List K) : Prop where
  ends : l.getLast? = some last
  keys : firstSeen (l.map key) = ks ++ [key last]
  chunks : s.chunks.map Prod.fst = ks.map (group key l)
  rest : s.rest = group key l (key last)

variable {key} {breaks : α → α → Bool} {R : α → α → Prop}

theorem step_breaking (breaks : α → α → Bool) (s : Cut α) (x : α) :
    (breaking breaks).step s x =
      if s.rest.head?.any fun first => breaks first x then ⟨s.chunks ++ [(s.rest, x)], [x]⟩
      else ⟨s.chunks, s.rest ++ [x]⟩ := rfl

variable (hbreaks : ∀ y x, R y x → (breaks y x = true ↔ key y ≠ key x))
  (hgap : ∀ y z x, R y z → R z x → key y = key x → key z = key x)
include hbreaks hgap

/-- One more item: of the last key, or of a new one. -/
theorem Grouped.step {last : α} {s : Cut α} {ks : List K} (hl : (l ++ [x]).Pairwise R)
    (h : Grouped key l last s ks) :
    ∃ ks', Grouped key (l ++ [x]) x ((breaking breaks).step s x) ks' := by
  obtain ⟨init, hinit⟩ := List.getLast?_eq_some_iff.mp h.ends
  have hRx : ∀ y ∈ l, R y x := fun y hy =>
    (List.pairwise_append.mp hl).2.2 y hy x (List.mem_singleton_self x)
  have hlast : last ∈ l := List.mem_of_getLast? h.ends
  have hnodup : (ks ++ [key last]).Nodup := h.keys ▸ nodup_firstSeen (l.map key)
  have hmem : last ∈ s.rest := by
    rw [h.rest]
    exact List.mem_filter.mpr ⟨hlast, decide_eq_true rfl⟩
  -- the chunk's first item has the last key, and stands before `x`
  obtain ⟨first, others, hfirst⟩ := List.exists_cons_of_ne_nil (List.ne_nil_of_mem hmem)
  have hfirstMem : first ∈ group key l (key last) := by
    rw [← h.rest, hfirst]
    exact List.mem_cons_self
  have hfirstKey : key first = key last := of_decide_eq_true (List.mem_filter.mp hfirstMem).2
  have hbreak := hbreaks first x (hRx first (List.mem_filter.mp hfirstMem).1)
  rw [hfirstKey] at hbreak
  have hany : (s.rest.head?.any fun first => breaks first x) = breaks first x := by
    rw [hfirst]
    rfl
  rw [step_breaking, hany]
  by_cases hkey : key last = key x
  · refine ⟨ks, ?_⟩
    rw [if_neg (fun hb => hbreak.mp hb hkey)]
    have hx : key x ∉ ks := by
      intro hx
      exact (List.nodup_append.mp hnodup).2.2 _ hx _ (List.mem_singleton_self _) hkey.symm
    constructor
    · exact List.getLast?_concat
    · rw [List.map_append, List.map_singleton, firstSeen_concat, h.keys, hkey]
      exact if_pos (List.mem_append_right ks (List.mem_singleton_self _))
    · rw [map_group_concat key hx]
      exact h.chunks
    · rw [group_concat_self, ← hkey, ← h.rest]
  · refine ⟨ks ++ [key last], ?_⟩
    rw [if_pos (hbreak.mpr hkey)]
    -- an earlier item with the key of `x` would have it at `last` too
    have hnew : ∀ y ∈ l, key y ≠ key x := by
      intro y hy heq
      rw [hinit] at hy hl
      rcases List.mem_append.mp hy with hy | hy
      · have hyl : R y last := (List.pairwise_append.mp (List.pairwise_append.mp hl).1).2.2 y hy
          last (List.mem_singleton_self last)
        exact hkey (hgap y last x hyl (hRx last hlast) heq)
      · exact hkey (List.mem_singleton.mp hy ▸ heq)
    have hx : key x ∉ ks ++ [key last] := by
      rw [← h.keys, mem_firstSeen]
      intro hx
      obtain ⟨y, hy, heq⟩ := List.mem_map.mp hx
      exact hnew y hy heq
    constructor
    · exact List.getLast?_concat
    · rw [List.map_append, List.map_singleton, firstSeen_concat, h.keys, if_neg hx]
    · rw [map_group_concat key hx, List.map_append, List.map_append, h.chunks]
      simp only [List.map_singleton]
      rw [h.rest]
    · rw [group_concat_self]
      have hempty : group key l (key x) = [] := by
        apply List.filter_eq_nil_iff.mpr
        intro y hy
        rw [decide_eq_true_eq]
        exact hnew y hy
      rw [hempty]
      rfl

/-- Where the breaks are between the keys, and the items of a key stand together, there is one
chunk for each key. -/
theorem cut_breaking (hl : l.Pairwise R) (hne : l ≠ []) :
    ∃ last ks, Grouped key l last ((breaking breaks).cut l) ks := by
  induction l using List.reverseRecOn with
  | nil => exact absurd rfl hne
  | append_singleton l x ih =>
    rw [cut_concat]
    by_cases hnil : l = []
    · subst hnil
      have hgroup : group key [x] (key x) = [x] := group_concat_self key [] x
      exact ⟨x, [], rfl, rfl, rfl, hgroup.symm⟩
    · obtain ⟨last, ks, hgrouped⟩ := ih (List.pairwise_append.mp hl).1 hnil
      exact ⟨x, hgrouped.step hbreaks hgap hl⟩

end

section

variable {K : Type} [LinearOrder K] {key : α → K}

/-- Every item of every chunk has the key that its chunk began with. -/
def OneKeyEach (key : α → K) (c : Cut α) : Prop :=
  ∀ chunk ∈ c.chunks.map Prod.fst ++ [c.rest], ∀ first ∈ chunk.head?, ∀ x ∈ chunk,
    key x = key first

/-- The open chunk began with the greatest key so far. -/
def Latest (key : α → K) (l : List α) (c : Cut α) : Prop :=
  ∃ first ∈ l, first ∈ c.rest.head? ∧ ∀ y ∈ l, key y ≤ key first

/-- One more item: it opens a chunk, or it has the key of the open one unless the keys go back. -/
theorem oneKeyEach_step {c : Cut α} (h : Latest key l c) (x : α) :
    (OneKeyEach key ((breaking fun y x => decide (key y < key x)).step c x) ↔
      OneKeyEach key c ∧ ∀ y ∈ l, key y ≤ key x) ∧
    Latest key (l ++ [x]) ((breaking fun y x => decide (key y < key x)).step c x) := by
  obtain ⟨first, hfirst, hhead, hle⟩ := h
  rw [step_breaking, Option.mem_def.mp hhead, Option.any_some]
  obtain ⟨others, hrest⟩ := List.head?_eq_some_iff.mp hhead
  by_cases hlt : key first < key x
  · have hall : ∀ y ∈ l, key y ≤ key x := fun y hy => (hle y hy).trans hlt.le
    rw [if_pos (decide_eq_true hlt)]
    refine ⟨?_, x, by simp, rfl, ?_⟩
    · rw [and_iff_left hall]
      simp [OneKeyEach, or_imp, forall_and]
    · simpa [or_imp, forall_and] using hall
  · have hback : key x = key first ↔ ∀ y ∈ l, key y ≤ key x :=
      ⟨fun heq y hy => heq ▸ hle y hy, fun hall => le_antisymm (not_lt.mp hlt) (hall first hfirst)⟩
    rw [if_neg (by simpa using hlt)]
    refine ⟨?_, first, by simp [hfirst], by simp [hrest], ?_⟩
    · simp only [OneKeyEach, ← hback, hrest]
      simp [or_imp, forall_and, and_assoc]
    · simpa [or_imp, forall_and] using And.intro hle hlt

/-- Chunks that break where the key grows have one key each if and only if it never goes back. -/
theorem oneKeyEach_cut (key : α → K) (l : List α) :
    (OneKeyEach key ((breaking fun y x => decide (key y < key x)).cut l) ↔
      l.Pairwise fun y x => key y ≤ key x) ∧
    (l ≠ [] → Latest key l ((breaking fun y x => decide (key y < key x)).cut l)) := by
  induction l using List.reverseRecOn with
  | nil => exact ⟨iff_of_true (by simp [OneKeyEach, cut]) List.Pairwise.nil, absurd rfl⟩
  | append_singleton l x ih =>
    rw [cut_concat, List.pairwise_append]
    by_cases hnil : l = []
    · subst hnil
      refine ⟨iff_of_true ?_ (by simp), fun _ => ⟨x, by simp, rfl, by simp⟩⟩
      simp [OneKeyEach, cut, step, breaking]
    · obtain ⟨hstep, hlatest⟩ := oneKeyEach_step (ih.2 hnil) x
      refine ⟨?_, fun _ => hlatest⟩
      rw [hstep, ih.1]
      simp

end

end Cutter

end MctraderData.Lib
