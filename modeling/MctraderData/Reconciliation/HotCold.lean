import Mathlib.Algebra.Order.Field.Basic
import Mathlib.Algebra.Order.Field.Rat
import MctraderData.Lib.Replicas

/-!
# mctrader-data — hot and cold bars side by side

Model of `reconciliation/hot_cold_consistency.py`. Both streams go into dicts by the identity of
a bar, and the dicts are compared; the counts are those of the streams. The times of a bar are
UTC, so they stand for their ISO texts. `drift` is the exact quotient: to 28 digits it is zero in
the same cases.

* `compare_sound_iff` — the streams for which the report says what it seems to say
-/

namespace MctraderData.Reconciliation

open Lib

/-- `_BarKey` -/
structure BarKey where
  barLabel : String
  genesisTs : Int
  tsClose : Int
  exchange : String
  symbol : String
deriving DecidableEq

/-- `_OHLCV` -/
structure Ohlcv where
  openPrice : ℚ
  high : ℚ
  low : ℚ
  close : ℚ
  volume : ℚ
  value : Option ℚ
deriving DecidableEq

/-- `InformationBarModel`, as far as it is compared. -/
structure InformationBar extends BarKey, Ohlcv

/-- `_key_of` -/
def keyOf (bar : InformationBar) : BarKey := bar.toBarKey

/-- `_ohlcv_of` -/
def ohlcvOf (bar : InformationBar) : Ohlcv := bar.toOhlcv

structure HotColdReport where
  hotCount : Nat
  coldCount : Nat
  matchedCount : Nat
  ohlcvMismatches : List (BarKey × Ohlcv × Ohlcv)
  hotOnlyKeys : List BarKey
  coldOnlyKeys : List BarKey
  threshold : ℚ

def HotColdReport.mismatchCount (r : HotColdReport) : Nat :=
  r.hotOnlyKeys.length + r.coldOnlyKeys.length + r.ohlcvMismatches.length

def HotColdReport.drift (r : HotColdReport) : ℚ :=
  if max r.hotCount r.coldCount = 0 then 0 else r.mismatchCount / (max r.hotCount r.coldCount : ℕ)

/-- A dict by key; of several bars with one key the last stays. -/
abbrev BarMap := List (BarKey × InformationBar)

def barMap (bars : List InformationBar) : BarMap := bars.foldl (keepStep keyOf fun _ _ => true) []

/-- The entry under a key. -/
def BarMap.ohlcv? (m : BarMap) (key : BarKey) : Option Ohlcv :=
  (m.find? fun e => decide (e.1 = key)).map fun e => ohlcvOf e.2

/-- The keys of one dict that the other does not have. -/
def BarMap.only (m other : BarMap) : List BarKey :=
  (m.map Prod.fst).filter fun key => decide (key ∉ other.map Prod.fst)

def BarMap.matched (hot cold : BarMap) : BarMap :=
  hot.filter fun e => decide (cold.ohlcv? e.1 = some (ohlcvOf e.2))

def BarMap.mismatches (hot cold : BarMap) : List (BarKey × Ohlcv × Ohlcv) :=
  hot.filterMap fun e => (cold.ohlcv? e.1).bind fun v =>
    if ohlcvOf e.2 = v then none else some (e.1, ohlcvOf e.2, v)

/-- `HotColdConsistencyHarness.compare` -/
def compare (threshold : ℚ) (hot cold : List InformationBar) : HotColdReport where
  hotCount := hot.length
  coldCount := cold.length
  matchedCount := ((barMap hot).matched (barMap cold)).length
  ohlcvMismatches := (barMap hot).mismatches (barMap cold)
  hotOnlyKeys := (barMap hot).only (barMap cold)
  coldOnlyKeys := (barMap cold).only (barMap hot)
  threshold := threshold

/-! ## counts -/

theorem ohlcv?_eq_none {m : BarMap} {key : BarKey} :
    m.ohlcv? key = none ↔ key ∉ m.map Prod.fst := by
  rw [BarMap.ohlcv?, Option.map_eq_none_iff, find?_key_eq_none]

/-- Every key of the first dict is matched, mismatched or missing. -/
theorem length_eq_parts (hot cold : BarMap) :
    (hot.matched cold).length + (hot.mismatches cold).length + (hot.only cold).length =
      hot.length := by
  induction hot with
  | nil => rfl
  | cons e hot ih =>
    have hkey := @ohlcv?_eq_none cold e.1
    simp only [BarMap.matched, BarMap.mismatches, BarMap.only] at ih ⊢
    cases hlook : cold.ohlcv? e.1 <;> grind

theorem keys_barMap (bars : List InformationBar) :
    (barMap bars).map Prod.fst = firstSeen (bars.map keyOf) :=
  (foldl_keepStep_keys keyOf _ bars).2

/-- The keys that both dicts have, counted on either side. -/
theorem length_both (hot cold : List InformationBar) :
    (barMap hot).length + ((barMap cold).only (barMap hot)).length =
      (barMap cold).length + ((barMap hot).only (barMap cold)).length := by
  have hparts := fun (m other : BarMap) => List.length_eq_length_filter_add (l := m.map Prod.fst)
    fun key => decide (key ∈ other.map Prod.fst)
  have hboth : ((barMap hot).map Prod.fst).filter (fun key =>
      decide (key ∈ (barMap cold).map Prod.fst)) |>.Perm (((barMap cold).map Prod.fst).filter
        fun key => decide (key ∈ (barMap hot).map Prod.fst)) := by
    rw [keys_barMap, keys_barMap]
    refine (List.perm_ext_iff_of_nodup ((nodup_firstSeen _).filter _)
      ((nodup_firstSeen _).filter _)).mpr fun key => ?_
    simp [and_comm]
  have h := hparts (barMap hot) (barMap cold)
  have h' := hparts (barMap cold) (barMap hot)
  rw [List.length_map] at h h'
  have hlength := hboth.length_eq
  simp only [BarMap.only, decide_not]
  omega

/-- A dict has as many entries as the stream had bars just when no key came twice. -/
theorem length_barMap_iff (bars : List InformationBar) :
    (barMap bars).length = bars.length ↔ (bars.map keyOf).Nodup := by
  rw [← List.length_map Prod.fst, keys_barMap, show bars.length = (bars.map keyOf).length from
    List.length_map keyOf |>.symm]
  constructor
  · intro h
    rw [← (firstSeen_sublist _).eq_of_length h]
    exact nodup_firstSeen _
  · intro h
    have hself := foldl_keepStep_keys keyOf (fun _ _ => true) bars
    rw [foldl_keepStep_of_nodup keyOf _ h] at hself
    rw [← hself.2, List.map_map]
    rfl

/-! ## drift -/

/-- What of a bar is compared. -/
def entry (bar : InformationBar) : BarKey × Ohlcv := (keyOf bar, ohlcvOf bar)

theorem barMap_of_nodup {bars : List InformationBar} (h : (bars.map keyOf).Nodup) :
    barMap bars = bars.map fun bar => (keyOf bar, bar) :=
  foldl_keepStep_of_nodup keyOf _ h

theorem ohlcv?_eq_some {bars : List InformationBar} (h : (bars.map keyOf).Nodup) {key : BarKey}
    {v : Ohlcv} : (barMap bars).ohlcv? key = some v ↔ (key, v) ∈ bars.map entry := by
  rw [barMap_of_nodup h, BarMap.ohlcv?, Option.map_eq_some_iff]
  induction bars with
  | nil => simp
  | cons bar bars ih =>
    obtain ⟨hnew, hrest⟩ := List.nodup_cons.mp h
    rw [List.map_cons, List.map_cons, List.mem_cons]
    by_cases hkey : keyOf bar = key
    · subst hkey
      have hothers : (keyOf bar, v) ∉ bars.map entry := fun hmem =>
        hnew (by simpa [entry] using List.mem_map_of_mem (f := Prod.fst) hmem)
      simp [entry, hothers, eq_comm]
    · rw [List.find?_cons_of_neg (by simpa using hkey), ih hrest,
        or_iff_right fun h => hkey (congrArg Prod.fst h).symm]

theorem drift_eq_zero_iff (threshold : ℚ) (hot cold : List InformationBar) :
    (compare threshold hot cold).drift = 0 ↔ (compare threshold hot cold).mismatchCount = 0 := by
  unfold HotColdReport.drift
  split
  case isTrue hzero =>
    obtain ⟨hhot, hcold⟩ := Nat.max_eq_zero_iff.mp hzero
    rw [List.length_eq_zero_iff.mp hhot, List.length_eq_zero_iff.mp hcold]
    exact iff_of_true rfl rfl
  case isFalse hpos =>
    rw [div_eq_zero_iff, or_iff_left (Nat.cast_ne_zero.mpr hpos), Nat.cast_eq_zero]

/-- With distinct keys, nothing differs just when the bars are the same. -/
theorem mismatchCount_eq_zero_iff (threshold : ℚ) {hot cold : List InformationBar}
    (hhot : (hot.map keyOf).Nodup) (hcold : (cold.map keyOf).Nodup) :
    (compare threshold hot cold).mismatchCount = 0 ↔ (hot.map entry).Perm (cold.map entry) := by
  have hparts := length_eq_parts (barMap hot) (barMap cold)
  have hmatched : ((barMap hot).matched (barMap cold)).length = (barMap hot).length ↔
      hot.map entry ⊆ cold.map entry := by
    rw [BarMap.matched, List.length_filter_eq_length_iff, barMap_of_nodup hhot]
    simp [ohlcv?_eq_some hcold, entry, List.subset_def]
  have honly : ((barMap cold).only (barMap hot)).length = 0 ↔
      cold.map keyOf ⊆ hot.map keyOf := by
    rw [List.length_eq_zero_iff, BarMap.only, List.filter_eq_nil_iff, keys_barMap, keys_barMap]
    simp only [mem_firstSeen, List.subset_def, decide_eq_true_eq, not_not]
  have hsame : (compare threshold hot cold).mismatchCount = 0 ↔
      hot.map entry ⊆ cold.map entry ∧ cold.map keyOf ⊆ hot.map keyOf := by
    rw [← hmatched, ← honly]
    simp only [HotColdReport.mismatchCount, compare]
    omega
  have hkeys : ∀ bars : List InformationBar, (bars.map entry).map Prod.fst = bars.map keyOf :=
    fun bars => List.map_map
  rw [hsame]
  constructor
  · rintro ⟨hsub, hback⟩
    -- distinct bars on the hot side, all of them among as many on the cold side
    have hnodup : (hot.map entry).Nodup := List.Nodup.of_map Prod.fst (by rwa [hkeys])
    refine (List.subperm_of_subset hnodup hsub).perm_of_length_le ?_
    simpa using (List.subperm_of_subset hcold hback).length_le
  · intro h
    exact ⟨h.subset, hkeys hot ▸ hkeys cold ▸ List.map_subset _ h.symm.subset⟩

/-- **The report.** Drift zero means equal streams and the counts add up, if and only if neither
stream has two bars with one key. -/
theorem compare_sound_iff (threshold : ℚ) (hot cold : List InformationBar) :
    (((compare threshold hot cold).drift = 0 ↔ (hot.map entry).Perm (cold.map entry)) ∧
      (compare threshold hot cold).hotCount = (compare threshold hot cold).matchedCount +
        (compare threshold hot cold).ohlcvMismatches.length +
        (compare threshold hot cold).hotOnlyKeys.length ∧
      (compare threshold hot cold).coldCount = (compare threshold hot cold).matchedCount +
        (compare threshold hot cold).ohlcvMismatches.length +
        (compare threshold hot cold).coldOnlyKeys.length) ↔
      (hot.map keyOf).Nodup ∧ (cold.map keyOf).Nodup := by
  have hparts := length_eq_parts (barMap hot) (barMap cold)
  have hboth := length_both hot cold
  rw [← length_barMap_iff, ← length_barMap_iff]
  simp only [compare] at *
  constructor
  · rintro ⟨-, hcount, hcount'⟩
    omega
  · rintro ⟨hhot, hcold⟩
    refine ⟨?_, by omega, by omega⟩
    rw [length_barMap_iff] at hhot hcold
    exact (drift_eq_zero_iff threshold hot cold).trans
      (mismatchCount_eq_zero_iff threshold hhot hcold)

def oneBar : InformationBar :=
  ⟨⟨"time_60", 0, 60, "upbit", "KRW-BTC"⟩, ⟨1, 1, 1, 1, 1, none⟩⟩

/-- A bar that came twice on one side: no drift, and a count that does not add up. -/
theorem repeated_bar_hidden :
    (compare 1 [oneBar, oneBar] [oneBar]).drift = 0 ∧
      ¬ ([oneBar, oneBar].map entry).Perm ([oneBar].map entry) ∧
      (compare 1 [oneBar, oneBar] [oneBar]).matchedCount = 1 := by
  refine ⟨by decide +kernel, fun h => ?_, by decide +kernel⟩
  cases h.length_eq

end MctraderData.Reconciliation
