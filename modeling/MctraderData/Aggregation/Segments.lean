import Mathlib.Algebra.BigOperators.Group.List.Basic
import MctraderData.Aggregation.Core
import MctraderData.Lib.Segmentation

/-!
# mctrader-data — what the aggregators compute

The state machines of `Aggregation/Core.lean` against a description without states. The ticks
of a symbol are cut into chunks; a bar is the summary of a chunk, and the open state is the
summary of the rest. When to cut is the only thing in which the aggregators differ.

The draft of a stream is what the aggregators hand to `InformationBarModel` as long as it
accepts every bar.

Main results:

* `draft_shows` — every draft of every aggregator shows, for every symbol, the cut of its ticks.
* `Aggregator.run_cases` — a run is its draft with the numbers of its bars cut to 18 places, up
  to the first bar that the model refuses.
-/

namespace MctraderData.Aggregation

open Lib

/-! ## summaries -/

/-- OHLCV over some ticks, from the prices and quantities themselves. -/
def summary (genesisTs : Int) (ticks : List Tick) : BarState where
  genesisTs := genesisTs
  openPrice := (ticks.head?.map Tick.price).getD 0
  high := (ticks.map Tick.price).max?.getD 0
  low := (ticks.map Tick.price).min?.getD 0
  close := (ticks.getLast?.map Tick.price).getD 0
  volume := (ticks.map Tick.quantity).sum
  value := (ticks.map fun t => t.price * t.quantity).sum
  lastTs := (ticks.getLast?.map Tick.tsUtc).getD 0
  tickCount := ticks.length

theorem newState_eq_summary (t : Tick) (genesisTs : Int) :
    { newState t with genesisTs := genesisTs } = summary genesisTs [t] := by
  simp [newState, summary]

theorem updateOhlc_eq (s : BarState) (price : ℚ) :
    s.updateOhlc price =
      { s with high := max s.high price, low := min s.low price, close := price } := by
  unfold BarState.updateOhlc
  congr 1
  · rw [max_def_lt]
  · rw [min_comm, min_def_lt]

/-- The largest price seen, and one more. -/
theorem max?_concat {prices : List ℚ} (hne : prices ≠ []) (price : ℚ) :
    (prices ++ [price]).max?.getD 0 = max (prices.max?.getD 0) price := by
  obtain ⟨first, others, rfl⟩ := List.exists_cons_of_ne_nil hne
  rw [List.cons_append, List.max?_cons', List.max?_cons', List.foldl_append]
  rfl

/-- The smallest price seen, and one more. -/
theorem min?_concat {prices : List ℚ} (hne : prices ≠ []) (price : ℚ) :
    (prices ++ [price]).min?.getD 0 = min (prices.min?.getD 0) price := by
  obtain ⟨first, others, rfl⟩ := List.exists_cons_of_ne_nil hne
  rw [List.cons_append, List.min?_cons', List.min?_cons', List.foldl_append]
  rfl

variable {ticks : List Tick}

/-- Merging a tick is summarising one more. -/
theorem merge_summary (genesisTs : Int) (hne : ticks ≠ []) (t : Tick) :
    merge (summary genesisTs ticks) t = summary genesisTs (ticks ++ [t]) := by
  have hprices : ticks.map Tick.price ≠ [] := by simpa using hne
  have hhead : (ticks ++ [t]).head? = ticks.head? := by
    obtain ⟨first, others, rfl⟩ := List.exists_cons_of_ne_nil hne
    rfl
  simp only [merge, summary, updateOhlc_eq, hhead, List.map_append, List.map_singleton,
    max?_concat hprices, min?_concat hprices, List.getLast?_concat, Option.map_some,
    Option.getD_some, List.sum_append, List.sum_singleton, List.length_append,
    List.length_singleton]

/-! ## chunks of ticks and their bars -/

def firstTs (ticks : List Tick) : Int := (ticks.head?.map Tick.tsUtc).getD 0

/-- Where the bar over some ticks begins. -/
def Aggregator.genesis : Aggregator → List Tick → Int
  | .time b, ticks => b.windowStart (firstTs ticks)
  | .threshold _, ticks => firstTs ticks

def Aggregator.stateOf (agg : Aggregator) (ticks : List Tick) : BarState :=
  summary (agg.genesis ticks) ticks

/-- No ticks, no state. -/
def Aggregator.openState (agg : Aggregator) : List Tick → Option BarState
  | [] => none
  | t :: ticks => some (agg.stateOf (t :: ticks))

/-- The bar over a chunk that a tick closes. -/
def Aggregator.barOf : Aggregator → List Tick → Tick → Bar
  | .time b, chunk, t =>
    barOfState b.barLabel (Aggregator.stateOf (.time b) chunk)
      (b.windowStart (firstTs chunk) + b.timeframe) t.exchange t.symbol
  | .threshold b, chunk, t => b.emit (Aggregator.stateOf (.threshold b) chunk) t

/-- What a threshold bar counts has come to its threshold. -/
def ThresholdBar.reached : ThresholdBar → List Tick → Bool
  | .volume threshold _, ticks => decide (threshold ≤ (ticks.map Tick.quantity).sum)
  | .tick threshold _, ticks => decide (threshold ≤ ticks.length)
  | .dollar threshold _, ticks =>
    decide (threshold ≤ (ticks.map fun t => t.price * t.quantity).sum)

/-- When a chunk ends: before the first tick past the window, or with the tick that comes to
the threshold. -/
def Aggregator.cutter : Aggregator → Cutter Tick
  | .time b =>
    Cutter.breaking fun first t => decide (b.windowStart first.tsUtc + b.timeframe ≤ t.tsUtc)
  | .threshold b => Cutter.closing b.reached

theorem ThresholdBar.reached_nil (b : ThresholdBar) : b.reached [] = false := by
  cases b with
  | volume threshold pos => exact decide_eq_false (not_le.mpr pos)
  | tick threshold pos => exact decide_eq_false (not_le.mpr pos)
  | dollar threshold pos => exact decide_eq_false (not_le.mpr pos)

/-- `_should_close` asks for nothing but the sums. -/
theorem ThresholdBar.shouldClose_summary (b : ThresholdBar) (genesisTs : Int)
    (ticks : List Tick) : b.shouldClose (summary genesisTs ticks) = b.reached ticks := by
  cases b <;> rfl

theorem firstTs_concat (hne : ticks ≠ []) (t : Tick) :
    firstTs (ticks ++ [t]) = firstTs ticks := by
  obtain ⟨first, others, rfl⟩ := List.exists_cons_of_ne_nil hne
  rfl

section

variable (agg : Aggregator)

theorem Aggregator.genesis_concat (hne : ticks ≠ []) (t : Tick) :
    agg.genesis (ticks ++ [t]) = agg.genesis ticks := by
  cases agg with
  | time b => exact congrArg b.windowStart (firstTs_concat hne t)
  | threshold b => exact firstTs_concat hne t

/-- The open state over one more tick. -/
theorem Aggregator.merge_stateOf (hne : ticks ≠ []) (t : Tick) :
    merge (agg.stateOf ticks) t = agg.stateOf (ticks ++ [t]) := by
  unfold stateOf
  rw [merge_summary _ hne, agg.genesis_concat hne]

theorem Aggregator.openState_of_ne_nil (hne : ticks ≠ []) :
    agg.openState ticks = some (agg.stateOf ticks) := by
  obtain ⟨first, others, rfl⟩ := List.exists_cons_of_ne_nil hne
  rfl

theorem Aggregator.openState_concat (ticks : List Tick) (t : Tick) :
    agg.openState (ticks ++ [t]) = some (agg.stateOf (ticks ++ [t])) :=
  agg.openState_of_ne_nil (List.concat_ne_nil t ticks)

theorem barOf_symbol (chunk : List Tick) (t : Tick) : (agg.barOf chunk t).symbol = t.symbol := by
  cases agg <;> rfl

theorem barOf_exchange (chunk : List Tick) (t : Tick) :
    (agg.barOf chunk t).exchange = t.exchange := by
  cases agg <;> rfl

end

/-! ## one tick -/

variable {t : Tick}

/-- A threshold bar closes with the tick that comes to the threshold. -/
theorem ThresholdBar.advance_of_open (b : ThresholdBar) {states : States} {rest : List Tick}
    (hopen : states.lookup t.symbol = Aggregator.openState (.threshold b) rest) :
    b.advance states t =
      if b.reached (rest ++ [t]) then
        (some (Aggregator.barOf (.threshold b) (rest ++ [t]) t), states.erase t.symbol)
      else (none, states.insert t.symbol (Aggregator.stateOf (.threshold b) (rest ++ [t]))) := by
  have hmerged : withTick states t = Aggregator.stateOf (.threshold b) (rest ++ [t]) := by
    unfold withTick
    rw [hopen]
    cases rest with
    | nil => exact newState_eq_summary t t.tsUtc
    | cons first others => exact Aggregator.merge_stateOf _ (List.cons_ne_nil _ _) t
  have hclose : b.shouldClose (Aggregator.stateOf (.threshold b) (rest ++ [t])) =
      b.reached (rest ++ [t]) := b.shouldClose_summary _ _
  unfold advance
  rw [hmerged, hclose]
  rfl

/-- A time bar closes before the first tick past its window. -/
theorem TimeBar.advance_of_open (b : TimeBar) {states : States} {rest : List Tick}
    (hopen : states.lookup t.symbol = Aggregator.openState (.time b) rest) :
    b.advance states t =
      if (Aggregator.cutter (.time b)).before rest t then
        (some (Aggregator.barOf (.time b) rest t),
          states.insert t.symbol (Aggregator.stateOf (.time b) [t]))
      else (none, states.insert t.symbol (Aggregator.stateOf (.time b) (rest ++ [t]))) := by
  have hseed : { newState t with genesisTs := b.windowStart t.tsUtc } =
      Aggregator.stateOf (.time b) [t] := newState_eq_summary t (b.windowStart t.tsUtc)
  unfold advance
  rw [hseed, hopen]
  cases rest with
  | nil => rfl
  | cons first others =>
    have hmerge := Aggregator.merge_stateOf (.time b) (List.cons_ne_nil first others) t
    show (if t.tsUtc < b.windowStart first.tsUtc + b.timeframe then _ else _) = _
    rw [hmerge]
    by_cases hlt : t.tsUtc < b.windowStart first.tsUtc + b.timeframe
    · have hbefore : (Aggregator.cutter (.time b)).before (first :: others) t = false :=
        decide_eq_false (not_le.mpr hlt)
      rw [if_pos hlt, hbefore]
      rfl
    · have hbefore : (Aggregator.cutter (.time b)).before (first :: others) t = true :=
        decide_eq_true (not_lt.mp hlt)
      rw [if_neg hlt, hbefore]
      rfl

variable {σ : String}

/-- A tick leaves the other symbols alone. -/
theorem advance_lookup_ne (agg : Aggregator) (states : States) (t : Tick) (hne : σ ≠ t.symbol) :
    (agg.advance states t).2.lookup σ = states.lookup σ := by
  cases agg with
  | time b =>
    show (b.advance states t).2.lookup σ = _
    unfold TimeBar.advance
    split
    · exact AList.lookup_insert_ne hne
    · split <;> exact AList.lookup_insert_ne hne
  | threshold b =>
    show (b.advance states t).2.lookup σ = _
    unfold ThresholdBar.advance
    split
    · exact AList.lookup_erase_ne hne
    · exact AList.lookup_insert_ne hne

/-- A bar has the exchange and the symbol of the tick that closes it. -/
theorem advance_bar (agg : Aggregator) (states : States) (t : Tick) {bar : Bar}
    (hbar : (agg.advance states t).1 = some bar) :
    bar.exchange = t.exchange ∧ bar.symbol = t.symbol := by
  cases agg with
  | time b =>
    change (b.advance states t).1 = some bar at hbar
    unfold TimeBar.advance at hbar
    split at hbar
    · cases hbar
    · split at hbar
      · cases hbar
      · cases hbar
        exact ⟨rfl, rfl⟩
  | threshold b =>
    change (b.advance states t).1 = some bar at hbar
    unfold ThresholdBar.advance at hbar
    split at hbar
    · cases hbar
      exact ⟨rfl, rfl⟩
    · cases hbar

/-! ## a draft -/

/-- One tick, when the model accepts. -/
def Aggregator.draftTick (agg : Aggregator) (s : Session) (t : Tick) : Session :=
  ⟨s.bars ++ (agg.advance s.states t).1.toList, (agg.advance s.states t).2, none⟩

def Aggregator.draft (agg : Aggregator) (ticks : List Tick) : Session :=
  ticks.foldl agg.draftTick {}

theorem Aggregator.draft_concat (agg : Aggregator) (ticks : List Tick) (t : Tick) :
    agg.draft (ticks ++ [t]) = agg.draftTick (agg.draft ticks) t := by
  unfold draft
  rw [List.foldl_append]
  rfl

def ofSymbol (σ : String) (ticks : List Tick) : List Tick := ticks.filter (·.symbol = σ)

theorem ofSymbol_concat_self (ticks : List Tick) (t : Tick) :
    ofSymbol t.symbol (ticks ++ [t]) = ofSymbol t.symbol ticks ++ [t] := by
  simp [ofSymbol]

theorem ofSymbol_concat_ne (hne : t.symbol ≠ σ) (ticks : List Tick) :
    ofSymbol σ (ticks ++ [t]) = ofSymbol σ ticks := by
  simp [ofSymbol, hne]

def barsOf (σ : String) (bars : List Bar) : List Bar := bars.filter (·.symbol = σ)

/-- What a session shows of a symbol: a bar for each chunk, and the rest open. -/
structure Shows (agg : Aggregator) (σ : String) (s : Session) (c : Cut Tick) : Prop where
  bars : barsOf σ s.bars = c.chunks.map fun p => agg.barOf p.1 p.2
  state : s.states.lookup σ = agg.openState c.rest

/-- The bars of a symbol after one more tick. -/
theorem barsOf_draftTick (agg : Aggregator) (s : Session) (t : Tick) (σ : String) :
    barsOf σ (agg.draftTick s t).bars =
      barsOf σ s.bars ++ if t.symbol = σ then (agg.advance s.states t).1.toList else [] := by
  show barsOf σ (s.bars ++ (agg.advance s.states t).1.toList) = _
  unfold barsOf
  rw [List.filter_append]
  congr 1
  cases hbar : (agg.advance s.states t).1 with
  | none =>
    split <;> rfl
  | some bar =>
    have hsymbol := (advance_bar agg s.states t hbar).2
    by_cases heq : t.symbol = σ
    · rw [if_pos heq]
      exact List.filter_cons_of_pos (decide_eq_true (hsymbol.trans heq))
    · rw [if_neg heq]
      exact List.filter_cons_of_neg fun h => heq (hsymbol ▸ of_decide_eq_true h)

theorem draftTick_shows_other {agg : Aggregator} {s : Session} {c : Cut Tick} (hne : t.symbol ≠ σ)
    (hshows : Shows agg σ s c) : Shows agg σ (agg.draftTick s t) c where
  bars := by
    rw [barsOf_draftTick, if_neg hne, List.append_nil]
    exact hshows.bars
  state := (advance_lookup_ne agg s.states t hne.symm).trans hshows.state

theorem draftTick_shows_self {agg : Aggregator} {s : Session} {c : Cut Tick}
    (hshows : Shows agg t.symbol s c) :
    Shows agg t.symbol (agg.draftTick s t) (agg.cutter.step c t) := by
  have hdraft : (agg.draftTick s t).states = (agg.advance s.states t).2 := rfl
  cases agg with
  | time b =>
    have hadvance : Aggregator.advance (.time b) s.states t = _ :=
      b.advance_of_open hshows.state
    constructor
    · rw [barsOf_draftTick, if_pos rfl, hshows.bars, hadvance]
      unfold Cutter.step
      split
      · rw [List.map_append]
        rfl
      · exact List.append_nil _
    · rw [hdraft, hadvance]
      unfold Cutter.step
      split
      · exact AList.lookup_insert _
      · rw [if_neg (show ¬ (Aggregator.cutter (.time b)).after _ = true from Bool.false_ne_true)]
        rw [Aggregator.openState_concat]
        exact AList.lookup_insert _
  | threshold b =>
    have hadvance : Aggregator.advance (.threshold b) s.states t = _ :=
      b.advance_of_open hshows.state
    have hstep : (Aggregator.cutter (.threshold b)).step c t =
        if b.reached (c.rest ++ [t]) then ⟨c.chunks ++ [(c.rest ++ [t], t)], []⟩
        else ⟨c.chunks, c.rest ++ [t]⟩ := rfl
    constructor
    · rw [barsOf_draftTick, if_pos rfl, hshows.bars, hadvance, hstep]
      split
      · rw [List.map_append]
        rfl
      · exact List.append_nil _
    · rw [hdraft, hadvance, hstep]
      split
      · exact AList.lookup_erase _ _
      · rw [Aggregator.openState_concat]
        exact AList.lookup_insert _

/-- Every draft shows, for every symbol, the cut of the ticks of that symbol. -/
theorem draft_shows (agg : Aggregator) (σ : String) (ticks : List Tick) :
    Shows agg σ (agg.draft ticks) (agg.cutter.cut (ofSymbol σ ticks)) := by
  induction ticks using List.reverseRecOn with
  | nil => exact ⟨rfl, rfl⟩
  | append_singleton ticks t ih =>
    rw [agg.draft_concat]
    by_cases hsymbol : t.symbol = σ
    · subst hsymbol
      rw [ofSymbol_concat_self, Cutter.cut_concat]
      exact draftTick_shows_self ih
    · rw [ofSymbol_concat_ne hsymbol]
      exact draftTick_shows_other hsymbol ih

/-! ## a run and its draft -/

/-- The model takes the bar. -/
def Accepted (args : Bar) : Prop := informationBarModel args = .ok args.coerced

instance (args : Bar) : Decidable (Accepted args) := inferInstanceAs (Decidable (_ = _))

theorem coerced_of_ok {args bar : Bar} (h : informationBarModel args = .ok bar) :
    bar = args.coerced := by
  unfold informationBarModel at h
  split at h
  · split at h
    · exact (Except.ok.inj h).symm
    · cases h
  · cases h

/-- A draft with the numbers of its bars cut. -/
def Session.checked (d : Session) : Session := ⟨d.bars.map Bar.coerced, d.states, none⟩

section

variable (agg : Aggregator)

/-- A tick takes a checked draft to a checked draft, or raises and adds no bar. -/
theorem Aggregator.feed_checked (d : Session) (t : Tick) :
    ((∀ args ∈ (agg.advance d.states t).1, Accepted args) ∧
      agg.feed d.checked t = (agg.draftTick d t).checked) ∨
    (∃ args ∈ (agg.advance d.states t).1, ¬ Accepted args) ∧
      ∃ e, agg.feed d.checked t =
        ⟨d.bars.map Bar.coerced, agg.refused d.states t, some e⟩ := by
  unfold feed Session.checked draftTick processTick
  cases hadvance : agg.advance d.states t with
  | mk drafted states =>
    cases drafted with
    | none => exact Or.inl ⟨by simp, by simp⟩
    | some args =>
      cases hmodel : informationBarModel args with
      | ok bar =>
        obtain rfl := coerced_of_ok hmodel
        exact Or.inl ⟨by simp [Accepted, hmodel], by simp [hmodel]⟩
      | error e => exact Or.inr ⟨by simp [Accepted, hmodel], e, by simp [hmodel]⟩

/-- The bars of a draft are among those of a longer one. -/
theorem Aggregator.draft_bars_le {pre : List Tick} (h : pre <+: ticks) :
    (agg.draft pre).bars <+: (agg.draft ticks).bars := by
  obtain ⟨later, rfl⟩ := h
  induction later using List.reverseRecOn with
  | nil => simp
  | append_singleton later t ih =>
    rw [← List.append_assoc, agg.draft_concat]
    exact ih.trans (List.prefix_append _ _)

/-- A run is the checked draft of all ticks, or of those before a bar that is refused. -/
theorem Aggregator.run_cases (ticks : List Tick) :
    ((∀ args ∈ (agg.draft ticks).bars, Accepted args) ∧
      agg.run ticks = (agg.draft ticks).checked) ∨
    ∃ before t, before ++ [t] <+: ticks ∧
      (∀ args ∈ (agg.draft before).bars, Accepted args) ∧
      (∃ args ∈ (agg.draft (before ++ [t])).bars, ¬ Accepted args) ∧
      ∃ e, agg.run ticks =
        ⟨(agg.draft before).bars.map Bar.coerced, agg.refused (agg.draft before).states t,
          some e⟩ := by
  induction ticks using List.reverseRecOn with
  | nil => exact Or.inl ⟨fun _ h => absurd h List.not_mem_nil, rfl⟩
  | append_singleton ticks t ih =>
    rw [agg.run_concat]
    rcases ih with ⟨haccepted, hrun⟩ | ⟨before, t', hbefore, haccepted, hrefused, e, hrun⟩
    · have hbars : (agg.draft (ticks ++ [t])).bars =
          (agg.draft ticks).bars ++ (agg.advance (agg.draft ticks).states t).1.toList := by
        rw [agg.draft_concat]
        rfl
      rw [hrun]
      rcases agg.feed_checked (agg.draft ticks) t with
        ⟨hlast, hfeed⟩ | ⟨⟨args, hargs, hlast⟩, hfeed⟩
      · refine Or.inl ⟨?_, by rw [hfeed, agg.draft_concat]⟩
        intro args hargs
        rw [hbars, List.mem_append, Option.mem_toList] at hargs
        exact hargs.elim (haccepted args) (hlast args)
      · refine Or.inr ⟨ticks, t, List.prefix_refl _, haccepted, ⟨args, ?_, hlast⟩, hfeed⟩
        rw [hbars, List.mem_append, Option.mem_toList]
        exact Or.inr hargs
    · -- the stream has ended before
      refine Or.inr ⟨before, t', hbefore.trans (List.prefix_append _ _), haccepted, hrefused, e, ?_⟩
      rw [hrun]
      rfl

theorem Aggregator.run_of_accepted (h : ∀ args ∈ (agg.draft ticks).bars, Accepted args) :
    agg.run ticks = (agg.draft ticks).checked := by
  rcases agg.run_cases ticks with ⟨-, hrun⟩ | ⟨before, t, hbefore, -, ⟨args, hargs, hrefused⟩, -⟩
  · exact hrun
  · exact absurd (h args ((agg.draft_bars_le hbefore).mem hargs)) hrefused

theorem Aggregator.Quiet.accepted {agg : Aggregator} (h : agg.Quiet ticks) :
    ∀ args ∈ (agg.draft ticks).bars, Accepted args := by
  rcases agg.run_cases ticks with ⟨haccepted, -⟩ | ⟨before, t, -, -, -, e, hrun⟩
  · exact haccepted
  · unfold Quiet at h
    rw [hrun] at h
    cases h

/-- A bar is a draft with its numbers cut. -/
theorem Aggregator.exists_draft_of_bar {bar : Bar} (hbar : bar ∈ (agg.run ticks).bars) :
    ∃ args ∈ (agg.draft ticks).bars, args.coerced = bar := by
  rcases agg.run_cases ticks with ⟨-, hrun⟩ | ⟨before, t, hbefore, -, -, e, hrun⟩
  · rw [hrun] at hbar
    exact List.mem_map.mp hbar
  · rw [hrun] at hbar
    obtain ⟨args, hargs, heq⟩ := List.mem_map.mp hbar
    exact ⟨args, (agg.draft_bars_le ((List.prefix_append _ _).trans hbefore)).mem hargs, heq⟩

end

theorem barsOf_map_coerced (σ : String) (bars : List Bar) :
    barsOf σ (bars.map Bar.coerced) = (barsOf σ bars).map Bar.coerced := by
  unfold barsOf
  rw [List.filter_map]
  rfl

/-- The bars of a checked draft. -/
theorem Shows.checked_bars {agg : Aggregator} {d : Session} {c : Cut Tick}
    (hshows : Shows agg σ d c) :
    barsOf σ d.checked.bars = c.chunks.map fun p => (agg.barOf p.1 p.2).coerced := by
  rw [show d.checked.bars = d.bars.map Bar.coerced from rfl, barsOf_map_coerced, hshows.bars,
    List.map_map]
  rfl

end MctraderData.Aggregation
