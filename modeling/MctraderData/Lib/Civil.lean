import Mathlib.Algebra.GroupWithZero.Nat
import Mathlib.Data.List.Basic

/-!
# Civil dates

Dates and times of day as they are written down: from a number of seconds since the epoch to
year, month, day, hour, minute and second, and these to text. A date is found by counting off
years, then months, so nothing is lost: a date, and also its text, has only one number.
-/

namespace MctraderData.Lib

/-! ## counting off -/

section

variable (len : Nat → Nat)

/-- Units of the given lengths are counted off from unit `u` on, at most `fuel` of them: the
unit that `d` falls into, and what is left. -/
def countOff : Nat → Nat → Nat → Nat × Nat
  | 0, u, d => (u, d)
  | fuel + 1, u, d => if d < len u then (u, d) else countOff fuel (u + 1) (d - len u)

/-- The length of `k` units from `u` on. -/
def span (u k : Nat) : Nat := ((List.range' u k).map len).sum

variable {len}

theorem span_succ (u k : Nat) : span len u (k + 1) = len u + span len (u + 1) k := by
  simp [span, List.range'_succ]

theorem le_span (hpos : ∀ u, 0 < len u) (u k : Nat) : k ≤ span len u k := by
  induction k generalizing u with
  | zero => exact Nat.zero_le _
  | succ k ih =>
    rw [span_succ]
    have := hpos u
    have := ih (u + 1)
    omega

variable (len) in
/-- Some units, all of them passed, and what is left of `d`. -/
theorem countOff_eq (fuel u d : Nat) :
    ∃ k ≤ fuel, (countOff len fuel u d).1 = u + k ∧
      d = span len u k + (countOff len fuel u d).2 := by
  induction fuel generalizing u d with
  | zero => exact ⟨0, Nat.le_refl 0, rfl, (Nat.zero_add d).symm⟩
  | succ fuel ih =>
    unfold countOff
    split_ifs with hlt
    · exact ⟨0, Nat.zero_le _, rfl, (Nat.zero_add d).symm⟩
    · obtain ⟨k, hk, hunit, hrest⟩ := ih (u + 1) (d - len u)
      refine ⟨k + 1, Nat.succ_le_succ hk, by omega, ?_⟩
      rw [span_succ]
      omega

theorem countOff_injective {fuel fuel' u d d' : Nat}
    (h : countOff len fuel u d = countOff len fuel' u d') : d = d' := by
  obtain ⟨k, -, hunit, hrest⟩ := countOff_eq len fuel u d
  obtain ⟨k', -, hunit', hrest'⟩ := countOff_eq len fuel' u d'
  rw [h] at hunit hrest
  obtain rfl : k = k' := by omega
  exact hrest.trans hrest'.symm

/-- With enough units, what is left is within one. -/
theorem countOff_lt {fuel u d : Nat} (h : d < span len u (fuel + 1)) :
    (countOff len fuel u d).2 < len (countOff len fuel u d).1 := by
  induction fuel generalizing u d with
  | zero => simpa [countOff, span] using h
  | succ fuel ih =>
    unfold countOff
    split_ifs with hlt
    · exact hlt
    · refine ih ?_
      rw [span_succ] at h
      omega

end

/-! ## dates -/

def isLeap (year : Nat) : Bool :=
  decide (year % 4 = 0) && (decide (year % 100 ≠ 0) || decide (year % 400 = 0))

def yearLength (year : Nat) : Nat := if isLeap year then 366 else 365

def monthLength (year : Nat) : Nat → Nat
  | 2 => if isLeap year then 29 else 28
  | 4 | 6 | 9 | 11 => 30
  | _ => 31

theorem yearLength_pos (year : Nat) : 0 < yearLength year := by
  unfold yearLength
  split_ifs <;> decide

theorem monthLength_le (year month : Nat) : monthLength year month ≤ 31 := by
  unfold monthLength
  split
  · split_ifs <;> decide
  all_goals decide

/-- The year, and the day of the year from zero on. -/
def yearDay (days : Nat) : Nat × Nat := countOff yearLength days 1970 days

/-- The month and the day of the month, both from one on. -/
def monthDay (year dayOfYear : Nat) : Nat × Nat :=
  ((countOff (monthLength year) 11 1 dayOfYear).1,
    (countOff (monthLength year) 11 1 dayOfYear).2 + 1)

theorem span_monthLength (year : Nat) : span (monthLength year) 1 12 = yearLength year := by
  cases hleap : isLeap year <;> simp [span, monthLength, yearLength, hleap, List.range']

theorem yearDay_lt (days : Nat) : (yearDay days).2 < yearLength (yearDay days).1 :=
  countOff_lt (Nat.lt_of_lt_of_le (Nat.lt_succ_self days) (le_span yearLength_pos _ _))

theorem monthDay_lt {year dayOfYear : Nat} (h : dayOfYear < yearLength year) :
    (monthDay year dayOfYear).1 < 100 ∧ (monthDay year dayOfYear).2 < 100 := by
  obtain ⟨k, hk, hmonth, -⟩ := countOff_eq (monthLength year) 11 1 dayOfYear
  rw [← span_monthLength] at h
  have hday := countOff_lt h
  have hle := monthLength_le year (countOff (monthLength year) 11 1 dayOfYear).1
  constructor <;> simp only [monthDay] <;> omega

/-! ## numbers as text -/

/-- A number in decimal, with leading zeros up to a width. -/
def padded (width n : Nat) : List Char := (Nat.toDigits 10 n).leftpad width '0'

theorem padded_injective (width : Nat) : Function.Injective (padded width) := by
  refine Function.LeftInverse.injective (g := fun l => Nat.ofDigitChars 10 l 0) fun n => ?_
  simp [padded, List.leftpad, Nat.ofDigitChars_append, Nat.ofDigitChars_replicate_zero,
    Nat.ofDigitChars_ten_toDigits]

theorem length_padded {width n : Nat} (hwidth : 0 < width) (h : n < 10 ^ width) :
    (padded width n).length = width := by
  rw [padded, List.length_leftpad]
  exact Nat.max_eq_left ((Nat.length_toDigits_le_iff (by decide) hwidth).mpr h)

theorem isDigit_of_mem_padded {width n : Nat} {c : Char} (h : c ∈ padded width n) :
    c.isDigit = true := by
  rcases List.mem_append.mp h with h | h
  · rw [List.eq_of_mem_replicate h]
    rfl
  · exact Nat.isDigit_of_mem_toDigits (by decide) (by decide) h

/-- Two digits at the end of a text are told apart from what stands before them. -/
theorem append_padded_inj {s s' : List Char} {n n' : Nat} (hn : n < 100) (hn' : n' < 100)
    (h : s ++ padded 2 n = s' ++ padded 2 n') : s = s' ∧ n = n' := by
  have hlength : (padded 2 n).length = (padded 2 n').length := by
    rw [length_padded (by decide) hn, length_padded (by decide) hn']
  obtain ⟨hs, hpadded⟩ := List.append_inj' h hlength
  exact ⟨hs, padded_injective 2 hpadded⟩

/-! ## stamps -/

/-- `%Y%m%d` with a separator. -/
def dateText (sep : List Char) (days : Nat) : List Char :=
  padded 4 (yearDay days).1 ++ sep ++ padded 2 (monthDay (yearDay days).1 (yearDay days).2).1 ++
    sep ++ padded 2 (monthDay (yearDay days).1 (yearDay days).2).2

/-- `%H%M%S` with a separator. -/
def timeText (sep : List Char) (seconds : Nat) : List Char :=
  padded 2 (seconds / 3600) ++ sep ++ padded 2 (seconds / 60 % 60) ++ sep ++
    padded 2 (seconds % 60)

theorem dateText_injective (sep : List Char) : Function.Injective (dateText sep) := by
  intro days days' h
  have hb := monthDay_lt (yearDay_lt days)
  have hb' := monthDay_lt (yearDay_lt days')
  obtain ⟨h, hday⟩ := append_padded_inj hb.2 hb'.2 h
  obtain ⟨h, hmonth⟩ := append_padded_inj hb.1 hb'.1 (List.append_cancel_right h)
  have hyear := padded_injective 4 (List.append_cancel_right h)
  -- the same year has the same months
  have hdayOfYear : (yearDay days).2 = (yearDay days').2 := by
    rw [hyear] at hmonth hday
    exact countOff_injective (Prod.ext hmonth (Nat.succ.inj hday))
  exact countOff_injective (Prod.ext hyear hdayOfYear)

theorem timeText_injective {sep : List Char} {seconds seconds' : Nat} (hlt : seconds < 86400)
    (hlt' : seconds' < 86400) (h : timeText sep seconds = timeText sep seconds') :
    seconds = seconds' := by
  obtain ⟨h, hsecond⟩ := append_padded_inj (by omega) (by omega) h
  obtain ⟨h, hminute⟩ := append_padded_inj (by omega) (by omega) (List.append_cancel_right h)
  have hhour := padded_injective 2 (List.append_cancel_right h)
  omega

/-- `%Y%m%dT%H%M%SZ`, on seconds since the epoch. -/
def utcStamp (ts : Nat) : List Char :=
  dateText [] (ts / 86400) ++ 'T' :: (timeText [] (ts % 86400) ++ ['Z'])

theorem utcStamp_injective : Function.Injective utcStamp := by
  have hlength : ∀ ts, (timeText [] (ts % 86400)).length = 6 := by
    intro ts
    simp only [timeText, List.append_nil, List.length_append]
    rw [length_padded (by decide) (by omega), length_padded (by decide) (by omega),
      length_padded (by decide) (by omega)]
  intro ts ts' h
  obtain ⟨hdate, htime⟩ := List.append_inj' h (by simp [hlength])
  have hday := dateText_injective [] hdate
  have htimes := timeText_injective (Nat.mod_lt _ (by decide)) (Nat.mod_lt _ (by decide))
    (List.append_cancel_right (List.cons.inj htime).2)
  omega

theorem dash_notMem_utcStamp (ts : Nat) : '-' ∉ utcStamp ts := by
  have hpadded : ∀ width n, '-' ∉ padded width n := by
    intro width n h
    exact absurd (isDigit_of_mem_padded h) (by decide)
  simp [utcStamp, dateText, timeText, hpadded]

example : String.ofList (utcStamp 1772323199) = "20260228T235959Z" := by decide +kernel

end MctraderData.Lib
