import Mathlib.Algebra.Order.Ring.Unbundled.Rat
import MctraderData.Lib.LastWrite
import MctraderData.Read.Orderbook

/-!
# mctrader-data — snapshot groups in the middle of a replay

A snapshot group that arrives while events are folded restarts the book: the exchange has
sent all levels anew. The loop restarts less than that. It clears a side when a snapshot
event is the first event of its timestamp, so the group's first row clears its own side and
the other side keeps its old levels. A group can also be passed over: behind a `§D14`
baseline the fold begins at the first delta, and behind the `§D11` baseline the snapshot
rows of the baseline's time count only up to the first delta among them.

## Results

* `getOrderbookAt_rebaseline_iff` — when the book at `t` is the last snapshot group with
  the deltas after it.
-/

namespace MctraderData.Read

open Nas
open Compactor
open Lib (slotAfter slotAfter_append slotAfter_eq_iff slotAfter_filter_eq_iff
  exists_of_bind_ok)

/-! ## what the group and the deltas after it say -/

/-- A snapshot row quotes its level if the quantity is positive; a delta updates. -/
def setLevel (b : Book) (e : EventRow) : Book :=
  match e.eventType with
  | .snapshot => applyBaselineEvent b e
  | .delta => b.update e.side (putDelta e.price e.quantity)

/-- The events up to `t`. -/
def upTo (t : Int) (events : List EventRow) : List EventRow :=
  events.filter fun e => decide (e.tsUtc ≤ t)

/-- The book that the events up to `t` give from nothing. -/
def rebased (t : Int) (events : List EventRow) : Book := (upTo t events).foldl setLevel {}

/-- The events split at the first row of the last snapshot group up to `t`. The group is all
snapshot events of one time, on both sides of the book. -/
structure LastGroup (t : Int) (events pre : List EventRow) (row : EventRow)
    (rest : List EventRow) : Prop where
  split : events = pre ++ row :: rest
  snapshot : row.eventType = .snapshot
  upTo : row.tsUtc ≤ t
  first : ∀ e ∈ pre, e.eventType = .snapshot → e.tsUtc ≠ row.tsUtc
  last : ∀ e ∈ rest, e.eventType = .snapshot → e.tsUtc ≤ t → e.tsUtc = row.tsUtc
  bothSides : ∃ e ∈ rest, e.eventType = .snapshot ∧ e.tsUtc = row.tsUtc ∧ e.side ≠ row.side

/-! ## levels -/

/-- What an event writes to a level: a quantity, or `none` where the level goes. -/
def writesLevel (side : Side) (price : ℚ) (e : EventRow) : Option (Option ℚ) :=
  if e.side = side ∧ e.price = price ∧ (e.eventType = .delta ∨ 0 < e.quantity) then
    some (if e.quantity = 0 then none else some e.quantity)
  else none

/-- No event writes the level. -/
def Untouched (side : Side) (price : ℚ) (events : List EventRow) : Prop :=
  ∀ e ∈ events, writesLevel side price e = none

def Book.level (b : Book) (side : Side) (price : ℚ) : Option ℚ := (b.on side).lookup price

theorem lookup_putDelta (levels : BookSide) (price quantity price' : ℚ) :
    (putDelta price quantity levels).lookup price' =
      if price = price' then (if quantity = 0 then none else some quantity)
      else levels.lookup price' := by
  unfold putDelta
  by_cases hp : price = price'
  · subst hp
    split <;> simp
  · rw [if_neg hp]
    split
    · exact AList.lookup_erase_ne (Ne.symm hp)
    · exact AList.lookup_insert_ne (Ne.symm hp)

theorem lookup_putPositive (levels : BookSide) (price quantity price' : ℚ) :
    (putPositive price quantity levels).lookup price' =
      if price = price' ∧ 0 < quantity then some quantity else levels.lookup price' := by
  unfold putPositive
  by_cases hp : price = price'
  · subst hp
    split <;> simp [*]
  · split <;> simp [hp, AList.lookup_insert_ne (Ne.symm hp)]

theorem level_setLevel (b : Book) (e : EventRow) (side : Side) (price : ℚ) :
    (setLevel b e).level side price = (writesLevel side price e).getD (b.level side price) := by
  unfold setLevel writesLevel Book.level applyBaselineEvent
  by_cases hside : e.side = side
  · subst hside
    cases e.eventType with
    | snapshot =>
      rw [Book.on_update_self, lookup_putPositive]
      by_cases hp : e.price = price ∧ 0 < e.quantity
      · simp [hp.1, hp.2, ne_of_gt hp.2]
      · simp [hp]
    | delta => by_cases hp : e.price = price <;> simp [lookup_putDelta, hp]
  · cases e.eventType <;> simp [hside, Book.on_update_ne _ (Ne.symm hside)]

/-- A level after a sequence of events is what the last event that writes it wrote. -/
theorem level_foldl_setLevel (b : Book) (events : List EventRow) (side : Side) (price : ℚ) :
    (events.foldl setLevel b).level side price =
      slotAfter (writesLevel side price) (b.level side price) events := by
  induction events generalizing b with
  | nil => rfl
  | cons e rest ih =>
    rw [List.foldl_cons, ih, level_setLevel]
    rfl

/-- Books with the same levels. -/
def SameLevels (b b' : Book) : Prop := ∀ side price, b.level side price = b'.level side price

theorem mem_levelsOfSide {l : BookSide} {x : OrderbookLevel} :
    x ∈ levelsOfSide l ↔ l.lookup x.price = some x.quantity := by
  have hentry : ∀ p q : ℚ, l.lookup p = some q ↔ (⟨p, q⟩ : (_ : ℚ) × ℚ) ∈ l.entries :=
    fun p q => AList.mem_lookup_iff
  rw [hentry]
  unfold levelsOfSide
  rw [List.mem_map]
  constructor
  · intro ⟨e, he, hx⟩
    subst hx
    exact he
  · intro h
    exact ⟨_, h, rfl⟩

theorem levelsOfSide_perm {l l' : BookSide} (h : ∀ price, l.lookup price = l'.lookup price) :
    (levelsOfSide l).Perm (levelsOfSide l') := by
  have hentries : l.entries.Perm l'.entries :=
    List.lookup_ext l.nodupKeys l'.nodupKeys fun price quantity => by
      have hp : l.entries.dlookup price = l'.entries.dlookup price := h price
      rw [hp]
  exact hentries.map _

theorem price_inj_of_mem {l : BookSide} {x y : OrderbookLevel} (hx : x ∈ levelsOfSide l)
    (hy : y ∈ levelsOfSide l) (h : x.price = y.price) : x = y := by
  have hq : some x.quantity = some y.quantity := by
    rw [← mem_levelsOfSide.mp hx, ← mem_levelsOfSide.mp hy, h]
  exact OrderbookLevel.mk.injEq _ _ _ _ ▸ ⟨h, Option.some.inj hq⟩

/-- The lists that are returned say what the levels are, and nothing else. -/
theorem sorted_levels_eq_iff (le : ℚ → ℚ → Prop) [DecidableRel le] [IsTrans ℚ le]
    [Std.Total le] [Std.Antisymm le] {l l' : BookSide} :
    (levelsOfSide l).insertionSort (fun x y => le x.price y.price) =
        (levelsOfSide l').insertionSort (fun x y => le x.price y.price) ↔
      ∀ price, l.lookup price = l'.lookup price := by
  let r : OrderbookLevel → OrderbookLevel → Prop := fun x y => le x.price y.price
  have hsort : ∀ m : BookSide, ((levelsOfSide m).insertionSort r).Perm (levelsOfSide m) :=
    fun m => List.perm_insertionSort r _
  constructor
  · intro h price
    have hperm : (levelsOfSide l).Perm (levelsOfSide l') := by
      have hl := hsort l
      rw [show (levelsOfSide l).insertionSort r = (levelsOfSide l').insertionSort r from h] at hl
      exact hl.symm.trans (hsort l')
    ext quantity
    have hmem := hperm.mem_iff (a := ⟨price, quantity⟩)
    rw [mem_levelsOfSide, mem_levelsOfSide] at hmem
    exact hmem
  · intro h
    have hperm := levelsOfSide_perm h
    have hanti : ∀ x y, x ∈ (levelsOfSide l).insertionSort r →
        y ∈ (levelsOfSide l').insertionSort r → r x y → r y x → x = y := by
      intro x y hx hy hxy hyx
      have hx' : x ∈ levelsOfSide l := (hsort l).mem_iff.mp hx
      have hy' : y ∈ levelsOfSide l := hperm.mem_iff.mpr ((hsort l').mem_iff.mp hy)
      exact price_inj_of_mem hx' hy' (Std.Antisymm.antisymm _ _ hxy hyx)
    exact List.Perm.eq_of_pairwise hanti (List.pairwise_insertionSort r _)
      (List.pairwise_insertionSort r _) ((hsort l).trans (hperm.trans (hsort l').symm))

/-- What is returned of a book. -/
def quoted (q : ReplayQuery) (b : Book) : OrderbookSnapshot :=
  ⟨q.symbol, q.tsUtc, b.bidLevels, b.askLevels⟩

theorem quoted_eq_iff (q : ReplayQuery) (b b' : Book) :
    quoted q b = quoted q b' ↔ SameLevels b b' := by
  have hbids : b.bidLevels = b'.bidLevels ↔ ∀ price, b.level .bid price = b'.level .bid price :=
    sorted_levels_eq_iff fun x y : ℚ => y ≤ x
  have hasks : b.askLevels = b'.askLevels ↔ ∀ price, b.level .ask price = b'.level .ask price :=
    sorted_levels_eq_iff fun x y : ℚ => x ≤ y
  unfold quoted SameLevels
  rw [OrderbookSnapshot.mk.injEq, hbids, hasks]
  constructor
  · intro ⟨_, _, hb, ha⟩ side
    cases side with
    | bid => exact hb
    | ask => exact ha
  · intro h
    exact ⟨rfl, rfl, h .bid, h .ask⟩

/-! ## the loop without its halts -/

/-- One round of the loop. -/
def advance (baselineTs : Int) (s : Replay) (e : EventRow) : Replay :=
  ⟨applyEvent baselineTs s e, e.tsUtc⟩

/-- Sorted by time. -/
def InOrder (events : List EventRow) : Prop := events.Pairwise fun a b => a.tsUtc ≤ b.tsUtc

theorem upTo_append (t : Int) (xs ys : List EventRow) :
    upTo t (xs ++ ys) = upTo t xs ++ upTo t ys := List.filter_append xs ys

variable {events : List EventRow} {t : Int}

theorem upTo_of_le (h : ∀ e ∈ events, e.tsUtc ≤ t) : upTo t events = events :=
  List.filter_eq_self.mpr fun e he => decide_eq_true (h e he)

variable {e : EventRow}

theorem upTo_cons_of_le (h : e.tsUtc ≤ t) (rest : List EventRow) :
    upTo t (e :: rest) = e :: upTo t rest :=
  List.filter_cons_of_pos (decide_eq_true h)

theorem upTo_of_lt {rest : List EventRow} (hsorted : InOrder (e :: rest)) (h : t < e.tsUtc) :
    upTo t (e :: rest) = [] := by
  refine List.filter_eq_nil_iff.mpr fun e' he' => ?_
  rw [decide_eq_true_eq]
  rcases List.mem_cons.mp he' with rfl | he'
  · omega
  · have := (List.pairwise_cons.mp hsorted).1 e' he'
    omega

variable {s : Replay}

/-- A loop that does not halt walks the events up to `t`. -/
theorem foldEvents_ok {q : ReplayQuery} {baselineTs : Int} {book : Book}
    (hsorted : InOrder events) (h : foldEvents q baselineTs s events = .ok book) :
    book = ((upTo q.tsUtc events).foldl (advance baselineTs) s).book := by
  induction events generalizing s with
  | nil => exact (Except.ok.inj h).symm
  | cons e rest ih =>
    obtain ⟨hle, hrest⟩ := List.pairwise_cons.mp hsorted
    unfold foldEvents at h
    split_ifs at h with hstop hgap hback
    · rw [upTo_of_lt hsorted hstop]
      exact (Except.ok.inj h).symm
    · rw [upTo_cons_of_le (by omega)]
      exact ih hrest h

/-- Behind the first row of the last group nothing is cleared: a snapshot event has the time
of the group, and so has the event before it. -/
theorem foldl_advance_of_started (baselineTs : Int) {g : Int} (hsorted : InOrder events)
    (hstart : g ≤ s.lastTs) (hafter : ∀ e ∈ events, s.lastTs ≤ e.tsUtc)
    (hsnap : ∀ e ∈ events, e.eventType = .snapshot → e.tsUtc = g ∧ baselineTs ≠ g) :
    (events.foldl (advance baselineTs) s).book = events.foldl setLevel s.book := by
  induction events generalizing s with
  | nil => rfl
  | cons e rest ih =>
    obtain ⟨hle, hrest⟩ := List.pairwise_cons.mp hsorted
    have hlast := hafter e List.mem_cons_self
    have hstep : applyEvent baselineTs s e = setLevel s.book e := by
      unfold applyEvent setLevel
      cases htype : e.eventType with
      | delta => rfl
      | snapshot =>
        obtain ⟨hg, hb⟩ := hsnap e List.mem_cons_self htype
        have hsame : s.lastTs = e.tsUtc := by omega
        rw [if_neg (by omega)]
        simp only [hsame, ne_eq, not_true_eq_false, if_false]
        rfl
    rw [List.foldl_cons, List.foldl_cons, ← hstep]
    exact ih hrest (by show g ≤ e.tsUtc; omega) hle
      fun e' he' => hsnap e' (List.mem_cons_of_mem e he')

def isDelta (e : EventRow) : Bool := decide (e.eventType = .delta)

/-- Snapshot events of the baseline's time are passed over. -/
theorem foldl_advance_of_baseline {baselineTs : Int}
    (hsnap : ∀ e ∈ events, e.eventType = .snapshot → e.tsUtc = baselineTs) :
    (events.foldl (advance baselineTs) s).book = (events.filter isDelta).foldl setLevel s.book := by
  induction events generalizing s with
  | nil => rfl
  | cons e rest ih =>
    have hrest := fun e' he' => hsnap e' (List.mem_cons_of_mem e he')
    rw [List.foldl_cons, ih hrest]
    show (rest.filter isDelta).foldl setLevel (applyEvent baselineTs s e) = _
    cases htype : e.eventType with
    | delta =>
      have hkeep : isDelta e = true := decide_eq_true htype
      rw [List.filter_cons_of_pos hkeep, List.foldl_cons]
      unfold applyEvent setLevel
      rw [htype]
    | snapshot =>
      have hskip : isDelta e = false := by
        unfold isDelta
        rw [htype]
        rfl
      rw [List.filter_cons_of_neg (by simp [hskip])]
      unfold applyEvent
      rw [htype]
      show (rest.filter isDelta).foldl setLevel (if _ then _ else _) = _
      rw [if_pos (hsnap e List.mem_cons_self htype)]

/-! ## how the group is met -/

/-- The loop when the event behind `pre` arrives; `none` if it has not begun. -/
def arrive (d14 : Option (Int × Book)) (pre : List EventRow) : Option Replay :=
  match d14 with
  | some (baselineTs, book) =>
    match deltasAfter baselineTs pre with
    | [] => none
    | walked => some (walked.foldl (advance baselineTs) ⟨book, baselineTs⟩)
  | none =>
    match pre.dropWhile fun e => decide (e.eventType ≠ .snapshot) with
    | [] => none
    | first :: more =>
      some (((first :: more).dropWhile (inBaseline first.tsUtc)).foldl (advance first.tsUtc)
        ⟨((first :: more).takeWhile (inBaseline first.tsUtc)).foldl applyBaselineEvent {},
          first.tsUtc⟩)

/-- The events of a `§D14` replay in front of the first delta. -/
def beforeDeltas (baselineTs : Int) (events : List EventRow) : List EventRow :=
  events.takeWhile fun e => !(decide (baselineTs < e.tsUtc) && decide (e.eventType = .delta))

/-- What it takes for the last group to restart the book.

* If the loop meets the group, every level that stands on a side it does not clear is
  written by the group or by a later delta.
* If the group lies in front of the first delta behind a `§D14` baseline, that baseline has
  the quantities of what was passed over, on every level that no later event writes.
* If the group is the `§D11` baseline, each row of it behind a delta is overwritten, or
  repeats the quantity that stands without it. -/
def Rebaselines (t : Int) (d14 : Option (Int × Book)) (pre : List EventRow) (row : EventRow)
    (rest : List EventRow) : Prop :=
  match arrive d14 pre, d14 with
  | some s, _ => ∀ side price, (side = row.side → s.lastTs = row.tsUtc) →
      Untouched side price (upTo t (row :: rest)) → s.book.level side price = none
  | none, some (baselineTs, book) => ∀ side price,
      Untouched side price (upTo t (deltasAfter baselineTs (row :: rest))) →
        book.level side price =
          (rebased t (beforeDeltas baselineTs (row :: rest))).level side price
  | none, none => ∀ side price ys e zs quantity,
      upTo t ((row :: rest).dropWhile (inBaseline row.tsUtc)) = ys ++ e :: zs →
      isDelta e = false → writesLevel side price e = some quantity → Untouched side price zs →
      ((ys.filter isDelta).foldl setLevel
        (((row :: rest).takeWhile (inBaseline row.tsUtc)).foldl setLevel {})).level side price =
          quantity

section

variable {q : ReplayQuery} {events pre rest : List EventRow} {row : EventRow} {book : Book}

theorem sameLevels_foldl_iff {b b' : Book} :
    SameLevels (events.foldl setLevel b) (events.foldl setLevel b') ↔
      ∀ side price, Untouched side price events → b.level side price = b'.level side price := by
  refine forall_congr' fun side => forall_congr' fun price => ?_
  rw [level_foldl_setLevel, level_foldl_setLevel]
  exact slotAfter_eq_iff

theorem level_empty (side : Side) (price : ℚ) : ({} : Book).level side price = none := by
  cases side <;> exact AList.lookup_empty price

/-- Clearing the side of the first row. -/
def restart (s : Replay) (row : EventRow) : Book :=
  if s.lastTs ≠ row.tsUtc then s.book.update row.side fun _ => ∅ else s.book

theorem level_restart (s : Replay) (row : EventRow) (side : Side) (price : ℚ) :
    (restart s row).level side price =
      if side = row.side → s.lastTs = row.tsUtc then s.book.level side price else none := by
  unfold restart Book.level
  by_cases hts : s.lastTs = row.tsUtc
  · rw [if_neg (by simp [hts]), if_pos fun _ => hts]
  · rw [if_pos hts]
    by_cases hside : side = row.side
    · subst hside
      rw [Book.on_update_self, if_neg fun h => hts (h rfl), AList.lookup_empty]
    · rw [Book.on_update_ne _ hside, if_pos fun h => absurd h hside]

variable {baselineTs : Int}

theorem applyEvent_first (hsnap : row.eventType = .snapshot) (hne : row.tsUtc ≠ baselineTs) :
    applyEvent baselineTs s row = setLevel (restart s row) row := by
  unfold applyEvent setLevel restart applyBaselineEvent
  rw [hsnap]
  show (if _ then _ else _) = _
  rw [if_neg hne]
  by_cases hts : s.lastTs = row.tsUtc
  · simp [hts]
  · simp only [ne_eq, hts, not_false_eq_true, if_true]
    cases row.side <;> rfl

theorem inOrder_group (hgroup : LastGroup q.tsUtc events pre row rest)
    (hsorted : InOrder events) : InOrder (row :: rest) :=
  hsorted.sublist (hgroup.split ▸ List.sublist_append_right pre _)

variable {l : List EventRow}

/-- From the group on, every snapshot event up to `t` is of the group. -/
theorem time_eq_group (hgroup : LastGroup q.tsUtc events pre row rest) (hl : l ⊆ row :: rest)
    (he : e ∈ upTo q.tsUtc l) (hsnap : e.eventType = .snapshot) : e.tsUtc = row.tsUtc := by
  obtain ⟨he, ht⟩ := List.mem_filter.mp he
  rcases List.mem_cons.mp (hl he) with rfl | he
  · rfl
  · exact hgroup.last e he hsnap (of_decide_eq_true ht)

/-- A loop that meets the group in state `s`. -/
theorem book_of_met (hgroup : LastGroup q.tsUtc events pre row rest)
    (hsorted : InOrder (row :: rest)) (hne : row.tsUtc ≠ baselineTs) :
    ((upTo q.tsUtc (row :: rest)).foldl (advance baselineTs) s).book =
      (upTo q.tsUtc (row :: rest)).foldl setLevel (restart s row) := by
  obtain ⟨hle, hrest⟩ := List.pairwise_cons.mp hsorted
  have hstarted := foldl_advance_of_started baselineTs
    (s := advance baselineTs s row) (g := row.tsUtc) (hrest.filter _) (le_refl row.tsUtc)
    (fun e he => hle e (List.mem_of_mem_filter he))
    fun e he hsnap => ⟨time_eq_group hgroup (List.subset_cons_self _ _) he hsnap, Ne.symm hne⟩
  rw [upTo_cons_of_le hgroup.upTo, List.foldl_cons, List.foldl_cons, ← applyEvent_first
    hgroup.snapshot hne]
  exact hstarted

theorem met_iff :
    SameLevels ((upTo q.tsUtc (row :: rest)).foldl setLevel (restart s row))
        (rebased q.tsUtc (row :: rest)) ↔
      ∀ side price, (side = row.side → s.lastTs = row.tsUtc) →
        Untouched side price (upTo q.tsUtc (row :: rest)) → s.book.level side price = none := by
  unfold rebased
  rw [sameLevels_foldl_iff]
  refine forall_congr' fun side => forall_congr' fun price => ?_
  rw [level_restart, level_empty]
  by_cases hkept : side = row.side → s.lastTs = row.tsUtc
  · rw [if_pos hkept]
    exact ⟨fun h _ => h, fun h => h hkept⟩
  · rw [if_neg hkept]
    exact ⟨fun _ h => absurd h hkept, fun _ _ => rfl⟩

/-- The events split into those that are walked before the group and those from it on. -/
theorem upTo_walked {walked : List EventRow} (hgroup : LastGroup q.tsUtc events pre row rest)
    (hsorted : InOrder events) (hsub : ∀ e ∈ walked, e ∈ pre) :
    upTo q.tsUtc (walked ++ row :: rest) = walked ++ upTo q.tsUtc (row :: rest) := by
  have hle := hgroup.upTo
  rw [hgroup.split] at hsorted
  have hpre : ∀ e ∈ walked, e.tsUtc ≤ q.tsUtc := by
    intro e he
    have := (List.pairwise_append.mp hsorted).2.2 e (hsub e he) row List.mem_cons_self
    omega
  rw [upTo_append, upTo_of_le hpre]

theorem deltasAfter_append (h : deltasAfter baselineTs pre ≠ []) :
    deltasAfter baselineTs (pre ++ row :: rest) = deltasAfter baselineTs pre ++ row :: rest := by
  unfold deltasAfter at h ⊢
  rw [List.dropWhile_append, if_neg (by simpa using h)]

theorem deltasAfter_append_of_nil (h : deltasAfter baselineTs pre = []) :
    deltasAfter baselineTs (pre ++ row :: rest) = deltasAfter baselineTs (row :: rest) := by
  unfold deltasAfter at h ⊢
  rw [List.dropWhile_append, h]
  rfl

theorem deltasAfter_subset (baselineTs : Int) (l : List EventRow) :
    ∀ e ∈ deltasAfter baselineTs l, e ∈ l :=
  fun _ he => (List.dropWhile_sublist _).subset he

theorem head_deltasAfter {more : List EventRow} (h : deltasAfter baselineTs l = e :: more) :
    baselineTs < e.tsUtc ∧ e.eventType = .delta := by
  have hnot := List.head?_dropWhile_not
    (fun e : EventRow => !(decide (baselineTs < e.tsUtc) && decide (e.eventType = .delta))) l
  unfold deltasAfter at h
  rw [h] at hnot
  simpa using hnot

/-- A loop that is under way when the group arrives. -/
theorem book_of_walked {walked : List EventRow} (hsorted : InOrder events)
    (hgroup : LastGroup q.tsUtc events pre row rest) (hsub : walked.Sublist pre)
    (hne : row.tsUtc ≠ baselineTs)
    (hbook : foldEvents q baselineTs s (walked ++ row :: rest) = .ok book) :
    book = (upTo q.tsUtc (row :: rest)).foldl setLevel
      (restart (walked.foldl (advance baselineTs) s) row) := by
  have hall : (walked ++ row :: rest).Sublist events :=
    hgroup.split ▸ hsub.append (List.Sublist.refl _)
  have hfold := foldEvents_ok (hsorted.sublist hall) hbook
  rwa [upTo_walked hgroup hsorted fun e he => hsub.subset he, List.foldl_append,
    book_of_met hgroup (inOrder_group hgroup hsorted) hne] at hfold

theorem takeWhile_append_of_neg {α : Type} {p : α → Bool} {a : α} (ha : p a = false)
    (l rest : List α) : (l ++ a :: rest).takeWhile p = l.takeWhile p := by
  induction l with
  | nil => simp [ha]
  | cons x l ih => rw [List.cons_append, List.takeWhile_cons, List.takeWhile_cons, ih]

theorem dropWhile_append_of_neg {α : Type} {p : α → Bool} {a : α} (ha : p a = false)
    (l rest : List α) : (l ++ a :: rest).dropWhile p = l.dropWhile p ++ a :: rest := by
  rw [List.dropWhile_append]
  split <;> simp_all

theorem foldl_baseline (h : ∀ e ∈ l, inBaseline baselineTs e = true) (b : Book) :
    l.foldl applyBaselineEvent b = l.foldl setLevel b := by
  refine List.foldl_ext _ _ b fun b' e he => ?_
  have htype : e.eventType = .snapshot :=
    of_decide_eq_true (Bool.and_eq_true _ _ ▸ h e he).2
  unfold setLevel
  rw [htype]

variable (hsorted : InOrder events) (hgroup : LastGroup q.tsUtc events pre row rest)
include hsorted hgroup

/-- The group is the `§D11` baseline. -/
theorem d11_baseline_iff (hbook : foldEvents q row.tsUtc
      ⟨((row :: rest).takeWhile (inBaseline row.tsUtc)).foldl applyBaselineEvent {}, row.tsUtc⟩
      ((row :: rest).dropWhile (inBaseline row.tsUtc)) = .ok book) :
    SameLevels book (rebased q.tsUtc (row :: rest)) ↔
      ∀ side price ys e zs quantity,
        upTo q.tsUtc ((row :: rest).dropWhile (inBaseline row.tsUtc)) = ys ++ e :: zs →
        isDelta e = false → writesLevel side price e = some quantity →
        Untouched side price zs →
        ((ys.filter isDelta).foldl setLevel
          (((row :: rest).takeWhile (inBaseline row.tsUtc)).foldl setLevel {})).level side price =
            quantity := by
  have hgroupTake : ∀ e ∈ (row :: rest).takeWhile (inBaseline row.tsUtc),
      inBaseline row.tsUtc e = true := List.all_eq_true.mp List.all_takeWhile
  have hsplit : upTo q.tsUtc (row :: rest) =
      (row :: rest).takeWhile (inBaseline row.tsUtc) ++
        upTo q.tsUtc ((row :: rest).dropWhile (inBaseline row.tsUtc)) := by
    have htake : ∀ e ∈ (row :: rest).takeWhile (inBaseline row.tsUtc), e.tsUtc ≤ q.tsUtc := by
      intro e he
      have hts : e.tsUtc = row.tsUtc :=
        of_decide_eq_true (Bool.and_eq_true _ _ ▸ hgroupTake e he).1
      have := hgroup.upTo
      omega
    rw [← upTo_of_le htake, ← upTo_append, List.takeWhile_append_dropWhile]
  have hdrop := List.dropWhile_sublist (l := row :: rest) (inBaseline row.tsUtc)
  have hfold := foldEvents_ok ((inOrder_group hgroup hsorted).sublist hdrop) hbook
  rw [foldl_advance_of_baseline fun e he => time_eq_group hgroup hdrop.subset he,
    foldl_baseline hgroupTake] at hfold
  rw [hfold]
  unfold rebased SameLevels
  rw [hsplit, List.foldl_append]
  generalize ((row :: rest).takeWhile (inBaseline row.tsUtc)).foldl setLevel {} = base
  refine forall_congr' fun side => forall_congr' fun price => ?_
  rw [level_foldl_setLevel, level_foldl_setLevel, slotAfter_filter_eq_iff]
  refine forall_congr' fun ys => forall_congr' fun e => forall_congr' fun zs =>
    forall_congr' fun quantity => ?_
  rw [level_foldl_setLevel]
  rfl

/-- The group lies in front of the first delta behind a `§D14` baseline. -/
theorem d14_skipped_iff {base : Book}
    (hbook : foldEvents q baselineTs ⟨base, baselineTs⟩ (deltasAfter baselineTs (row :: rest)) =
      .ok book) :
    SameLevels book (rebased q.tsUtc (row :: rest)) ↔
      ∀ side price, Untouched side price (upTo q.tsUtc (deltasAfter baselineTs (row :: rest))) →
        base.level side price =
          (rebased q.tsUtc (beforeDeltas baselineTs (row :: rest))).level side price := by
  have hsplit : upTo q.tsUtc (row :: rest) =
      upTo q.tsUtc (beforeDeltas baselineTs (row :: rest)) ++
        upTo q.tsUtc (deltasAfter baselineTs (row :: rest)) := by
    rw [← upTo_append]
    unfold beforeDeltas deltasAfter
    rw [List.takeWhile_append_dropWhile]
  have hsub : (deltasAfter baselineTs (row :: rest)).Sublist (row :: rest) :=
    List.dropWhile_sublist _
  have hbook' : book = (upTo q.tsUtc (deltasAfter baselineTs (row :: rest))).foldl
      setLevel base := by
    have hdeltas := (inOrder_group hgroup hsorted).sublist hsub
    have hfold := foldEvents_ok hdeltas hbook
    cases hlist : deltasAfter baselineTs (row :: rest) with
    | nil => rwa [hlist] at hfold
    | cons e more =>
      obtain ⟨hlt, hdelta⟩ := head_deltasAfter hlist
      rw [hlist] at hfold hdeltas hsub
      obtain ⟨hle, hmore⟩ := List.pairwise_cons.mp hdeltas
      by_cases ht : e.tsUtc ≤ q.tsUtc
      · have hrow : row.tsUtc ≤ e.tsUtc := by
          rcases List.mem_cons.mp (hsub.subset List.mem_cons_self) with rfl | he
          · exact le_refl _
          · exact (List.pairwise_cons.mp (inOrder_group hgroup hsorted)).1 e he
        have hstarted := foldl_advance_of_started baselineTs (g := row.tsUtc)
          (s := advance baselineTs ⟨base, baselineTs⟩ e) 
          (show InOrder (upTo q.tsUtc more) from hmore.filter _) hrow
          (fun e' he' => hle e' (List.mem_of_mem_filter he')) ?_
        · rw [upTo_cons_of_le ht] at hfold ⊢
          rw [hfold, List.foldl_cons, List.foldl_cons]
          refine hstarted.trans ?_
          unfold advance applyEvent setLevel
          rw [hdelta]
        · intro e' he' htype
          have htime :=
            time_eq_group hgroup (fun _ h => hsub.subset (List.mem_cons_of_mem e h)) he' htype
          have := hle e' (List.mem_of_mem_filter he')
          exact ⟨htime, by omega⟩
      · rwa [upTo_of_lt hdeltas (by omega)] at hfold ⊢
  rw [hbook']
  unfold rebased
  rw [hsplit, List.foldl_append]
  exact sameLevels_foldl_iff

/-- When the fold gives the last group with the deltas after it. -/
theorem replayBook_rebaseline_iff {d14 : Option (Int × Book)}
    (hbook : replayBook q d14 events = .ok book) :
    SameLevels book (rebased q.tsUtc (row :: rest)) ↔
      Rebaselines q.tsUtc d14 pre row rest := by
  have hbefore : ∀ e ∈ pre, e.tsUtc ≤ row.tsUtc := fun e he =>
    (List.pairwise_append.mp (hgroup.split ▸ hsorted)).2.2 e he row List.mem_cons_self
  unfold Rebaselines
  cases d14 with
  | some base =>
    obtain ⟨baselineTs, base⟩ := base
    have hfold : foldEvents q baselineTs ⟨base, baselineTs⟩ (deltasAfter baselineTs events) =
      .ok book := hbook
    cases hwalked : deltasAfter baselineTs pre with
    | nil =>
      have harrive : arrive (some (baselineTs, base)) pre = none := by
        simp only [arrive, hwalked]
      rw [hgroup.split, deltasAfter_append_of_nil hwalked] at hfold
      rw [harrive]
      exact d14_skipped_iff hsorted hgroup hfold
    | cons e more =>
      -- an event was walked before the row, so the row is behind the baseline
      have hne : row.tsUtc ≠ baselineTs := by
        have hlt := (head_deltasAfter hwalked).1
        have hmem := deltasAfter_subset baselineTs pre e (by rw [hwalked]; exact List.mem_cons_self)
        have := hbefore e hmem
        omega
      rw [hgroup.split, deltasAfter_append (by simp [hwalked]), hwalked] at hfold
      have hsub : (e :: more).Sublist pre := hwalked ▸ List.dropWhile_sublist _
      have harrive : arrive (some (baselineTs, base)) pre =
          some ((e :: more).foldl (advance baselineTs) ⟨base, baselineTs⟩) := by
        simp only [arrive, hwalked]
      rw [harrive, book_of_walked hsorted hgroup hsub hne hfold]
      exact met_iff
  | none =>
    have hreplay : replayFromEvents q events = .ok book := hbook
    have hrowTest : decide (row.eventType ≠ .snapshot) = false := by simp [hgroup.snapshot]
    unfold replayFromEvents at hreplay
    rw [if_neg (by simp [hgroup.split]), hgroup.split,
      dropWhile_append_of_neg (p := fun e : EventRow => decide (e.eventType ≠ .snapshot))
        hrowTest] at hreplay
    cases hfound : pre.dropWhile fun e => decide (e.eventType ≠ .snapshot) with
    | nil =>
      have harrive : arrive none pre = none := by
        simp only [arrive, hfound]
      rw [hfound] at hreplay
      rw [harrive]
      exact d11_baseline_iff hsorted hgroup hreplay
    | cons first more =>
      rw [hfound] at hreplay
      have hfirst : first.eventType = .snapshot := by
        have hnot := List.head?_dropWhile_not
          (fun e : EventRow => decide (e.eventType ≠ .snapshot)) pre
        rw [hfound] at hnot
        simpa using hnot
      have hsub : (first :: more).Sublist pre := hfound ▸ List.dropWhile_sublist _
      have hne : row.tsUtc ≠ first.tsUtc :=
        Ne.symm (hgroup.first first (hsub.subset List.mem_cons_self) hfirst)
      have hrowOut : inBaseline first.tsUtc row = false := by simp [inBaseline, hne]
      have hfold : foldEvents q first.tsUtc
          ⟨((first :: more).takeWhile (inBaseline first.tsUtc)).foldl applyBaselineEvent {},
            first.tsUtc⟩
          ((first :: more).dropWhile (inBaseline first.tsUtc) ++ row :: rest) = .ok book := by
        rw [← dropWhile_append_of_neg hrowOut, ← takeWhile_append_of_neg hrowOut _ rest]
        exact hreplay
      have harrive : arrive none pre =
          some (((first :: more).dropWhile (inBaseline first.tsUtc)).foldl (advance first.tsUtc)
            ⟨((first :: more).takeWhile (inBaseline first.tsUtc)).foldl applyBaselineEvent {},
              first.tsUtc⟩) := by
        simp only [arrive, hfound]
      rw [harrive, book_of_walked hsorted hgroup ((List.dropWhile_sublist _).trans hsub) hne hfold]
      exact met_iff

end

/-! ## get_orderbook_at -/

variable {W : Type}

/-- A scan is in order of time, deduplicated or not. -/
theorem dayEvents_inOrder {env : ReplayEnv} {store : OrderbookStore W} {q : ReplayQuery}
    (h : dayEvents env store q = .ok events) : InOrder events := by
  obtain ⟨rows, hrows, hemit⟩ := exists_of_bind_ok h
  obtain ⟨parts, _, hsort⟩ := exists_of_bind_ok hrows
  have hsorted : rows.Pairwise fun a b => a.row.tsUtc ≤ b.row.tsUtc := by
    have hkeys := List.pairwise_insertionSort (sortKey eventKind · ≤ sortKey eventKind ·)
      parts.flatten
    rw [show parts.flatten.insertionSort _ = rows from Except.ok.inj hsort] at hkeys
    exact hkeys.imp fun hab => (Prod.Lex.le_iff.mp hab).elim (fun hlt => le_of_lt hlt)
      fun heq => le_of_eq heq.1
  rw [← show emitRows eventKind rows = events from Except.ok.inj hemit]
  unfold emitRows InOrder
  split
  · exact List.pairwise_map.mpr (List.pairwise_insertionSort _ _)
  · exact List.pairwise_map.mpr hsorted

/-- The book at `t` is the last snapshot group up to `t`, updated by the deltas after it, when
the group restarts the book. -/
theorem getOrderbookAt_rebaseline_iff (env : ReplayEnv) (store : OrderbookStore W)
    (q : ReplayQuery) {events pre rest : List EventRow} {row : EventRow}
    {snap : OrderbookSnapshot} (hevents : dayEvents env store q = .ok events)
    (hgroup : LastGroup q.tsUtc events pre row rest)
    (hsnap : getOrderbookAt env store q = .ok snap) :
    snap = quoted q (rebased q.tsUtc (row :: rest)) ↔
      Rebaselines q.tsUtc (loadBaselineFromD14 env store q) pre row rest := by
  unfold getOrderbookAt at hsnap
  rw [hevents] at hsnap
  cases hbook : replayBook q (loadBaselineFromD14 env store q) events with
  | error e =>
    simp only [hbook] at hsnap
    exact nomatch hsnap
  | ok book =>
    simp only [hbook] at hsnap
    have hquoted : quoted q book = snap := Except.ok.inj hsnap
    rw [← hquoted, quoted_eq_iff]
    exact replayBook_rebaseline_iff (dayEvents_inOrder hevents) hgroup hbook

def requoted : OrderbookStore Unit :=
  bookDay [bookRow 0 .bid 100 1, bookRow 0 .ask 110 1, bookRow 10 .bid 101 1,
    bookRow 10 .ask 110 2]

/-- The group of time `10` quotes the old ask again, and so restarts the whole book. -/
theorem rebaselines_when_requoted :
    Rebaselines 10 (loadBaselineFromD14 markReplay requoted (bookAt 10))
      [bookRow 0 .bid 100 1, bookRow 0 .ask 110 1] (bookRow 10 .bid 101 1)
      [bookRow 10 .ask 110 2] :=
  (getOrderbookAt_rebaseline_iff markReplay requoted (bookAt 10)
    (show dayEvents markReplay requoted (bookAt 10) = .ok [bookRow 0 .bid 100 1,
      bookRow 0 .ask 110 1, bookRow 10 .bid 101 1, bookRow 10 .ask 110 2] by decide +kernel)
    ⟨rfl, rfl, by decide, by decide, by decide, by decide⟩
    (show getOrderbookAt markReplay requoted (bookAt 10) =
      .ok ⟨"KRW-BTC", 10, [⟨101, 1⟩], [⟨110, 2⟩]⟩ by decide +kernel)).mp (by decide +kernel)

/-- After a reconnect the group of time `10` quotes one bid and one ask. The old bid is gone,
and the old ask `110` still stands. -/
theorem getOrderbookAt_keeps_old_ask :
    LastGroup 10 [bookRow 0 .bid 100 1, bookRow 0 .ask 110 1, bookRow 10 .bid 101 1,
      bookRow 10 .ask 111 1] [bookRow 0 .bid 100 1, bookRow 0 .ask 110 1] (bookRow 10 .bid 101 1)
      [bookRow 10 .ask 111 1] ∧
    dayEvents markReplay (bookDay [bookRow 0 .bid 100 1, bookRow 0 .ask 110 1,
      bookRow 10 .bid 101 1, bookRow 10 .ask 111 1]) (bookAt 10) =
        .ok [bookRow 0 .bid 100 1, bookRow 0 .ask 110 1, bookRow 10 .bid 101 1,
          bookRow 10 .ask 111 1] ∧
    getOrderbookAt markReplay (bookDay [bookRow 0 .bid 100 1, bookRow 0 .ask 110 1,
      bookRow 10 .bid 101 1, bookRow 10 .ask 111 1]) (bookAt 10) =
        .ok ⟨"KRW-BTC", 10, [⟨101, 1⟩], [⟨110, 1⟩, ⟨111, 1⟩]⟩ ∧
    quoted (bookAt 10) (rebased 10 [bookRow 10 .bid 101 1, bookRow 10 .ask 111 1]) =
      ⟨"KRW-BTC", 10, [⟨101, 1⟩], [⟨111, 1⟩]⟩ :=
  ⟨⟨rfl, rfl, by decide, by decide, by decide, by decide⟩, by decide +kernel, by decide +kernel,
    by decide +kernel⟩

end MctraderData.Read
