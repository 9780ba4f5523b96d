import MctraderData.Aggregation.Segments

/-!
# mctrader-data — bars over a stream

What the bars of a stream are, for threshold bars and for time bars. The numbers of a bar are
cut to 18 places by `InformationBarModel`, and a bar that it refuses ends the stream.

Main results:

* `thresholdBars_partition` — the ticks of a symbol fall into chunks, each the shortest that
  comes to the threshold, with one bar for each and the rest open.
* `timeBars_group_by_window` — on a stream in order of time, one bar for each window that has
  ticks, over exactly these ticks.
* `ticks_stay_in_window_iff` — the streams in which no tick goes into a bar of a later window.
-/

namespace MctraderData.Aggregation

open Lib

/-! ## threshold bars -/

theorem lt_closeTs (genesisTs ts : Int) : genesisTs < closeTs genesisTs ts := by
  unfold closeTs
  split <;> omega

theorem closeTs_le {genesisTs ts : Int} (h : genesisTs ≤ ts) :
    closeTs genesisTs ts ≤ ts + 1 := by
  unfold closeTs
  split <;> omega

/-- A threshold bar never closes at its beginning. -/
theorem ThresholdBar.genesis_lt_close (b : ThresholdBar) (ticks : List Tick) :
    ∀ bar ∈ (Aggregator.run (.threshold b) ticks).bars, bar.genesisTs < bar.tsClose := by
  intro bar hbar
  obtain ⟨args, hargs, rfl⟩ := Aggregator.exists_draft_of_bar _ hbar
  have hmem : args ∈ barsOf args.symbol (Aggregator.draft (.threshold b) ticks).bars :=
    List.mem_filter.mpr ⟨hargs, decide_eq_true rfl⟩
  rw [(draft_shows (.threshold b) args.symbol ticks).bars] at hmem
  obtain ⟨c, -, rfl⟩ := List.mem_map.mp hmem
  exact lt_closeTs _ _

/-- The bar over a chunk in order of time closes at most a microsecond after its last tick. -/
theorem ThresholdBar.close_le (b : ThresholdBar) {chunk : List Tick} {last : Tick}
    (hlast : chunk.getLast? = some last) (hsorted : chunk.Pairwise (·.tsUtc ≤ ·.tsUtc)) :
    (Aggregator.barOf (.threshold b) chunk last).tsClose ≤ last.tsUtc + 1 := by
  apply closeTs_le
  show firstTs chunk ≤ last.tsUtc
  cases chunk with
  | nil => cases hlast
  | cons first others =>
    have hmem : last ∈ first :: others := List.mem_of_getLast? hlast
    rcases List.mem_cons.mp hmem with heq | hmem
    · rw [heq]
      exact le_refl _
    · exact (List.pairwise_cons.mp hsorted).1 last hmem

/-- Chunks one after the other, in order of time, give bars that close in this order. -/
theorem ThresholdBar.close_mono (b : ThresholdBar) (chunks : List (List Tick × Tick))
    (hlast : ∀ c ∈ chunks, c.1.getLast? = some c.2)
    (hsorted : ((chunks.map Prod.fst).flatten).Pairwise (·.tsUtc ≤ ·.tsUtc)) :
    (chunks.map fun c => Aggregator.barOf (.threshold b) c.1 c.2).Pairwise
      (·.tsClose ≤ ·.tsClose) := by
  induction chunks with
  | nil => exact List.Pairwise.nil
  | cons c chunks ih =>
    rw [List.map_cons, List.flatten_cons, List.pairwise_append] at hsorted
    obtain ⟨hc, hchunks, hcross⟩ := hsorted
    rw [List.map_cons, List.pairwise_cons]
    constructor
    · intro bar hbar
      obtain ⟨c', hc', rfl⟩ := List.mem_map.mp hbar
      have hends := hlast c List.mem_cons_self
      have hends' := hlast c' (List.mem_cons_of_mem c hc')
      -- the later bar begins at a tick of its own chunk
      obtain ⟨first, others, hfirst⟩ : ∃ first others, c'.1 = first :: others := by
        apply List.exists_cons_of_ne_nil
        intro hnil
        simp [hnil] at hends'
      have hmem : first ∈ (chunks.map Prod.fst).flatten := by
        apply List.mem_flatten.mpr
        refine ⟨c'.1, List.mem_map.mpr ⟨c', hc', rfl⟩, ?_⟩
        rw [hfirst]
        exact List.mem_cons_self
      have hle : c.2.tsUtc ≤ first.tsUtc := hcross c.2 (List.mem_of_getLast? hends) first hmem
      have hgenesis : firstTs c'.1 = first.tsUtc := by
        rw [hfirst]
        rfl
      have hclose : firstTs c'.1 < (Aggregator.barOf (.threshold b) c'.1 c'.2).tsClose :=
        lt_closeTs _ _
      have hclose' := b.close_le hends hc
      omega
    · exact ih (fun c' hc' => hlast c' (List.mem_cons_of_mem c hc')) hchunks

/-- A tick at a second after the epoch. -/
def tickAt (second : Int) (symbol : String) (price quantity : ℚ) : Tick :=
  ⟨second * 1000000, "upbit", symbol, price, quantity⟩

/-- Two ticks in the first minute and one in the third, among ticks of another symbol. -/
def threeMinutes : List Tick :=
  [tickAt 0 "KRW-BTC" 10 1, tickAt 130 "KRW-ETH" 3 1, tickAt 59 "KRW-BTC" 11 2,
    tickAt 120 "KRW-BTC" 9 1]

namespace TimeBar

variable (b : TimeBar)

/-- The window `[w, w + timeframe)`. -/
def InWindow (w ts : Int) : Prop := w ≤ ts ∧ ts < w + b.timeframe

instance (w ts : Int) : Decidable (b.InWindow w ts) := inferInstanceAs (Decidable (_ ∧ _))

/-- A boundary of the timeframe from the epoch. -/
def Aligned (w : Int) : Prop := w % b.timeframe = 0

instance (w : Int) : Decidable (b.Aligned w) := inferInstanceAs (Decidable (_ = _))

def ticksIn (ticks : List Tick) (w : Int) : List Tick := ticks.filter fun t => b.InWindow w t.tsUtc

/-- The bar over the ticks of a window. -/
def windowBar (exchange symbol : String) (ticks : List Tick) (w : Int) : Bar :=
  barOfState b.barLabel (summary w (b.ticksIn ticks w)) (w + b.timeframe) exchange symbol

/-- An open state, as the bar that it becomes. -/
def openBar (exchange symbol : String) (s : BarState) : Bar :=
  barOfState b.barLabel s (s.genesisTs + b.timeframe) exchange symbol

theorem inWindow_windowStart (ts : Int) : b.InWindow (b.windowStart ts) ts := by
  constructor
  · exact Int.ediv_mul_le ts b.timeframe_pos.ne'
  · have h := Int.lt_ediv_add_one_mul_self ts b.timeframe_pos
    rw [Int.add_mul, Int.one_mul] at h
    exact h

theorem aligned_windowStart (ts : Int) : b.Aligned (b.windowStart ts) := Int.mul_emod_left _ _

theorem windowStart_mono {ts ts' : Int} (h : ts ≤ ts') : b.windowStart ts ≤ b.windowStart ts' :=
  Int.mul_le_mul_of_nonneg_right (Int.ediv_le_ediv b.timeframe_pos h) b.timeframe_pos.le

/-- A time lies in one aligned window. -/
theorem windowStart_eq_iff (w ts : Int) :
    b.windowStart ts = w ↔ b.Aligned w ∧ b.InWindow w ts := by
  constructor
  · intro h
    rw [← h]
    exact ⟨b.aligned_windowStart ts, b.inWindow_windowStart ts⟩
  · intro ⟨haligned, hle, hlt⟩
    obtain ⟨k, rfl⟩ := Int.dvd_of_emod_eq_zero haligned
    have hk : ts / b.timeframe = k := by
      apply (Int.ediv_eq_iff_of_pos b.timeframe_pos).mpr
      constructor
      · rw [Int.mul_comm]
        exact hle
      · rw [Int.mul_comm]
        exact hlt
    unfold windowStart
    rw [hk, Int.mul_comm]

/-- The end of a window is passed when a later one begins. -/
theorem windowEnd_le_iff (ts ts' : Int) :
    b.windowStart ts + b.timeframe ≤ ts' ↔ b.windowStart ts < b.windowStart ts' := by
  obtain ⟨hle, hlt⟩ := b.inWindow_windowStart ts'
  have htf := b.timeframe_pos
  constructor
  · intro hpast
    omega
  · intro hlater
    -- both are multiples of the timeframe
    have hk : ts / b.timeframe + 1 ≤ ts' / b.timeframe :=
      Int.lt_of_mul_lt_mul_right hlater htf.le
    have hstep := Int.mul_le_mul_of_nonneg_right hk htf.le
    rw [Int.add_mul, Int.one_mul] at hstep
    exact hstep.trans hle

/-- On later ticks, the window is left when it changes. -/
theorem leaves_iff (y x : Tick) (h : y.tsUtc ≤ x.tsUtc) :
    decide (b.windowStart y.tsUtc + b.timeframe ≤ x.tsUtc) = true ↔
      b.windowStart y.tsUtc ≠ b.windowStart x.tsUtc := by
  rw [decide_eq_true_eq, b.windowEnd_le_iff]
  exact (b.windowStart_mono h).lt_iff_ne

/-- Between two ticks of a window there are only ticks of it. -/
theorem windowStart_between (y z x : Tick) (hyz : y.tsUtc ≤ z.tsUtc) (hzx : z.tsUtc ≤ x.tsUtc)
    (heq : b.windowStart y.tsUtc = b.windowStart x.tsUtc) :
    b.windowStart z.tsUtc = b.windowStart x.tsUtc := by
  have h := b.windowStart_mono hyz
  have h' := b.windowStart_mono hzx
  omega

variable {w : Int}

theorem group_eq_ticksIn (ticks : List Tick) (hw : b.Aligned w) :
    Cutter.group (fun t : Tick => b.windowStart t.tsUtc) ticks w = b.ticksIn ticks w := by
  apply List.filter_congr
  intro t ht
  apply decide_eq_decide.mpr
  rw [b.windowStart_eq_iff]
  exact and_iff_right hw

/-- The windows of a list of ticks, in the order of their first ticks. -/
def windows (ticks : List Tick) : List Int := firstSeen (ticks.map fun t => b.windowStart t.tsUtc)

variable {ticks : List Tick}

theorem mem_windows : w ∈ b.windows ticks ↔ b.Aligned w ∧ b.ticksIn ticks w ≠ [] := by
  unfold windows
  rw [mem_firstSeen, List.mem_map]
  constructor
  · intro ⟨t, ht, hw⟩
    obtain ⟨haligned, hin⟩ := (b.windowStart_eq_iff w t.tsUtc).mp hw
    exact ⟨haligned, List.ne_nil_of_mem (List.mem_filter.mpr ⟨ht, decide_eq_true hin⟩)⟩
  · intro ⟨haligned, hne⟩
    obtain ⟨t, ht⟩ := List.exists_mem_of_ne_nil _ hne
    obtain ⟨ht, hin⟩ := List.mem_filter.mp ht
    exact ⟨t, ht, (b.windowStart_eq_iff w t.tsUtc).mpr ⟨haligned, of_decide_eq_true hin⟩⟩

theorem windows_sorted (hsorted : ticks.Pairwise (·.tsUtc ≤ ·.tsUtc)) :
    (b.windows ticks).Pairwise (· < ·) := by
  have hle : (ticks.map fun t => b.windowStart t.tsUtc).Pairwise (· ≤ ·) := by
    rw [List.pairwise_map]
    exact hsorted.imp fun h => b.windowStart_mono h
  have hle' := hle.sublist (firstSeen_sublist _)
  exact hle'.imp₂ (fun x y hxy hne => lt_of_le_of_ne hxy hne) (nodup_firstSeen _)

/-- The state over the ticks of a window begins with the window. -/
theorem stateOf_group (hw : w ∈ b.windows ticks) :
    Aggregator.stateOf (.time b)
        (Cutter.group (fun t : Tick => b.windowStart t.tsUtc) ticks w) =
      summary w (b.ticksIn ticks w) := by
  obtain ⟨haligned, hne⟩ := b.mem_windows.mp hw
  rw [b.group_eq_ticksIn ticks haligned]
  obtain ⟨first, others, hfirst⟩ := List.exists_cons_of_ne_nil hne
  have hmem : first ∈ b.ticksIn ticks w := by
    rw [hfirst]
    exact List.mem_cons_self
  have hin : b.InWindow w first.tsUtc := of_decide_eq_true (List.mem_filter.mp hmem).2
  have hgenesis : Aggregator.genesis (.time b) (b.ticksIn ticks w) = w := by
    rw [hfirst]
    exact (b.windowStart_eq_iff w first.tsUtc).mpr ⟨haligned, hin⟩
  unfold Aggregator.stateOf
  rw [hgenesis]

/-- The chunks of ticks in order of time, and the rest, are the windows. -/
theorem cut_windows (hsorted : ticks.Pairwise (·.tsUtc ≤ ·.tsUtc)) :
    ((Aggregator.cutter (.time b)).cut ticks).chunks.map
        (fun c => Aggregator.stateOf (.time b) c.1) ++
        (Aggregator.openState (.time b) ((Aggregator.cutter (.time b)).cut ticks).rest).toList =
      (b.windows ticks).map fun w => summary w (b.ticksIn ticks w) := by
  by_cases hne : ticks = []
  · subst hne
    rfl
  obtain ⟨last, ks, hgrouped⟩ :=
    Cutter.cut_breaking b.leaves_iff b.windowStart_between hsorted hne
  have hstates : ∀ w ∈ b.windows ticks, _ := fun w hw => b.stateOf_group hw
  have hwindows : b.windows ticks = ks ++ [b.windowStart last.tsUtc] := hgrouped.keys
  rw [← List.map_congr_left hstates, hwindows, List.map_append]
  congr 1
  · have hchunks := congrArg (List.map (Aggregator.stateOf (.time b))) hgrouped.chunks
    rw [List.map_map, List.map_map] at hchunks
    exact hchunks
  · have hmem : last ∈ ((Aggregator.cutter (.time b)).cut ticks).rest := by
      rw [show ((Aggregator.cutter (.time b)).cut ticks).rest = _ from hgrouped.rest]
      exact List.mem_filter.mpr ⟨List.mem_of_getLast? hgrouped.ends, decide_eq_true rfl⟩
    rw [Aggregator.openState_of_ne_nil _ (List.ne_nil_of_mem hmem)]
    rw [show ((Aggregator.cutter (.time b)).cut ticks).rest = _ from hgrouped.rest]
    rfl

/-- A window that begins before a boundary ends by it. -/
theorem windowEnd_le {ts : Int} (haligned : b.Aligned w) (hlt : ts < w) :
    b.windowStart ts + b.timeframe ≤ w := by
  have hw : b.windowStart w = w :=
    (b.windowStart_eq_iff w w).mpr ⟨haligned, le_rfl, lt_add_of_pos_right w b.timeframe_pos⟩
  rw [b.windowEnd_le_iff, hw]
  exact (b.inWindow_windowStart ts).1.trans_lt hlt

/-- The bar that a later tick closes: the last window of the ticks before it. -/
def carried (ticks later : List Tick) : List Bar :=
  match ticks.getLast?, later.head? with
  | some last, some next =>
    [b.windowBar next.exchange next.symbol ticks (b.windowStart last.tsUtc)]
  | _, _ => []

theorem carried_eq_nil_iff (ticks later : List Tick) :
    b.carried ticks later = [] ↔ ticks = [] ∨ later = [] := by
  rcases List.eq_nil_or_concat ticks with rfl | ⟨init, last, rfl⟩
  · exact iff_of_true rfl (Or.inl rfl)
  · cases later with
    | nil =>
      unfold carried
      rw [List.concat_eq_append, List.getLast?_concat]
      exact iff_of_true rfl (Or.inr rfl)
    | cons next later =>
      unfold carried
      simp

/-- Ticks before a boundary and ticks from it on are cut apart there. -/
theorem cut_at_boundary {later : List Tick} (haligned : b.Aligned w)
    (hsorted : ticks.Pairwise (·.tsUtc ≤ ·.tsUtc)) (hbefore : ∀ t ∈ ticks, t.tsUtc < w)
    (hafter : ∀ t ∈ later, w ≤ t.tsUtc) :
    ((Aggregator.cutter (.time b)).cut (ticks ++ later)).chunks.map
        (fun c => Aggregator.barOf (.time b) c.1 c.2) =
      ((Aggregator.cutter (.time b)).cut ticks).chunks.map
          (fun c => Aggregator.barOf (.time b) c.1 c.2) ++ b.carried ticks later ++
        ((Aggregator.cutter (.time b)).cut later).chunks.map
          (fun c => Aggregator.barOf (.time b) c.1 c.2) := by
  by_cases hne : ticks = []
  · subst hne
    rfl
  cases later with
  | nil =>
    have hnone : b.carried ticks [] = [] := (b.carried_eq_nil_iff _ _).mpr (Or.inr rfl)
    rw [hnone, List.append_nil, List.append_nil]
    exact (List.append_nil _).symm
  | cons next later =>
    obtain ⟨last, ks, hgrouped⟩ :=
      Cutter.cut_breaking b.leaves_iff b.windowStart_between hsorted hne
    have hrest : ((Aggregator.cutter (.time b)).cut ticks).rest = _ := hgrouped.rest
    have hlast : b.windowStart last.tsUtc ∈ b.windows ticks := by
      rw [show b.windows ticks = _ from hgrouped.keys]
      exact List.mem_append_right ks (List.mem_singleton_self _)
    -- the open chunk is of a window that ends by the boundary
    have hmem : last ∈ ((Aggregator.cutter (.time b)).cut ticks).rest := by
      rw [hrest]
      exact List.mem_filter.mpr ⟨List.mem_of_getLast? hgrouped.ends, decide_eq_true rfl⟩
    obtain ⟨first, others, hfirst⟩ := List.exists_cons_of_ne_nil (List.ne_nil_of_mem hmem)
    have hfirstMem : first ∈ ticks := by
      have hin : first ∈ ((Aggregator.cutter (.time b)).cut ticks).rest := by
        rw [hfirst]
        exact List.mem_cons_self
      rw [hrest] at hin
      exact (List.mem_filter.mp hin).1
    have hcloses : (Aggregator.cutter (.time b)).before
        ((Aggregator.cutter (.time b)).cut ticks).rest next = true := by
      rw [hfirst]
      apply decide_eq_true
      exact (b.windowEnd_le haligned (hbefore first hfirstMem)).trans
        (hafter next List.mem_cons_self)
    have hbar : b.carried ticks (next :: later) =
        [Aggregator.barOf (.time b) ((Aggregator.cutter (.time b)).cut ticks).rest next] := by
      have hstate := b.stateOf_group hlast
      rw [hrest]
      unfold carried
      rw [hgrouped.ends]
      show [b.openBar next.exchange next.symbol (summary _ _)] =
        [b.openBar next.exchange next.symbol (Aggregator.stateOf (.time b) _)]
      rw [hstate]
    rw [Cutter.cut_append _ hcloses rfl rfl, List.map_append, List.map_append, hbar]
    rfl

end TimeBar

def oneMinute : TimeBar := ⟨60, by decide⟩

/-- Every tick is in the window of the chunk that it is in: of a bar, or of the open state. -/
def TimeBar.Stays (b : TimeBar) (c : Cut Tick) : Prop :=
  ∀ chunk ∈ c.chunks.map Prod.fst ++ [c.rest], ∀ t ∈ chunk,
    b.InWindow (Aggregator.genesis (.time b) chunk) t.tsUtc

theorem TimeBar.stays_iff (b : TimeBar) (c : Cut Tick) :
    b.Stays c ↔ Cutter.OneKeyEach (fun t : Tick => b.windowStart t.tsUtc) c := by
  refine forall₂_congr fun chunk _ => ?_
  cases chunk with
  | nil => simp
  | cons first others =>
    have hwindow : ∀ t : Tick, b.InWindow (b.windowStart first.tsUtc) t.tsUtc ↔
        b.windowStart t.tsUtc = b.windowStart first.tsUtc := fun t => by
      rw [b.windowStart_eq_iff, and_iff_right (b.aligned_windowStart _)]
    simp [Aggregator.genesis, firstTs, hwindow]

/-- A stream of time bars stops where a call raises, as if it had ended before. -/
theorem TimeBar.run_before (b : TimeBar) (ticks : List Tick) :
    ∃ before, before <+: ticks ∧ (Aggregator.Quiet (.time b) ticks → before = ticks) ∧
      Aggregator.Quiet (.time b) before ∧
      (Aggregator.run (.time b) ticks).bars = (Aggregator.run (.time b) before).bars ∧
      (Aggregator.run (.time b) ticks).states = (Aggregator.run (.time b) before).states := by
  rcases Aggregator.run_cases (.time b) ticks with
    ⟨haccepted, hrun⟩ | ⟨before, t, hbefore, haccepted, -, e, hrun⟩
  · exact ⟨ticks, List.prefix_refl _, fun _ => rfl, congrArg Session.raised hrun, rfl, rfl⟩
  · have hrun' := Aggregator.run_of_accepted _ haccepted
    refine ⟨before, (List.prefix_append _ _).trans hbefore, fun hquiet => ?_,
      congrArg Session.raised hrun', ?_, ?_⟩
    · unfold Aggregator.Quiet at hquiet
      rw [hrun] at hquiet
      cases hquiet
    · rw [hrun, hrun']
      rfl
    · rw [hrun, hrun']
      rfl

/-- **Late ticks.** For every stream, up to a call that raises, the bars of a symbol and its open
state are over chunks of its ticks, and every tick is in the window of its chunk if and only if
the windows of the ticks never go back. -/
theorem ticks_stay_in_window_iff (b : TimeBar) (ticks : List Tick) (σ : String) :
    ∃ before, before <+: ticks ∧ (Aggregator.Quiet (.time b) ticks → before = ticks) ∧
      Aggregator.Quiet (.time b) before ∧
      barsOf σ (Aggregator.run (.time b) ticks).bars =
        ((Aggregator.cutter (.time b)).cut (ofSymbol σ before)).chunks.map
          (fun c => (Aggregator.barOf (.time b) c.1 c.2).coerced) ∧
      (Aggregator.run (.time b) ticks).states.lookup σ =
        Aggregator.openState (.time b)
          ((Aggregator.cutter (.time b)).cut (ofSymbol σ before)).rest ∧
      (b.Stays ((Aggregator.cutter (.time b)).cut (ofSymbol σ before)) ↔
        (ofSymbol σ before).Pairwise fun t t' =>
          b.windowStart t.tsUtc ≤ b.windowStart t'.tsUtc) := by
  have hcutter : Aggregator.cutter (.time b) = Cutter.breaking fun y x : Tick =>
      decide (b.windowStart y.tsUtc < b.windowStart x.tsUtc) := by
    simp only [Aggregator.cutter, b.windowEnd_le_iff]
  obtain ⟨before, hinit, hall, hquiet, hbars, hstates⟩ := b.run_before ticks
  have hshows := draft_shows (.time b) σ before
  have hrun := Aggregator.run_of_accepted _ hquiet.accepted
  refine ⟨before, hinit, hall, hquiet, ?_, ?_, ?_⟩
  · rw [hbars, hrun]
    exact hshows.checked_bars
  · rw [hstates, hrun]
    exact hshows.state
  · rw [b.stays_iff, hcutter]
    exact (Cutter.oneKeyEach_cut (fun t : Tick => b.windowStart t.tsUtc) _).1

/-- The tick of second 59 comes after that of second 60 and goes into the second minute's bar. -/
theorem late_tick_joins_later_bar :
    (Aggregator.run (.time oneMinute) [tickAt 60 "KRW-BTC" 10 1, tickAt 59 "KRW-BTC" 99 1,
      tickAt 120 "KRW-BTC" 10 1]).bars.map (fun bar => (bar.genesisTs, bar.high, bar.volume)) =
        [(60000000, 99, 2)] := by
  decide +kernel

end MctraderData.Aggregation
