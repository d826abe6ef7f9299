import Mathlib.Dynamics.PeriodicPts.Defs
import Mathlib.Tactic.IntervalCases

/-! # A calendar with a leap year every fourth year

The years run from a first one, itself a leap year, to a last one and then start over. The next
day is a function on dates, so that days carried in any portions are iterates of one function,
with the number of days of all years as a period. -/
namespace RooTesting.LeapCalendar

structure Date where
  year : ℕ
  month : ℕ
  day : ℕ
  deriving DecidableEq

def daysInMonth (year month : ℕ) : ℕ :=
  [31, 28, 31, 30, 31, 30, 31, 31, 30, 31, 30, 31].getD (month - 1) 0 +
    if month = 2 ∧ year % 4 = 0 then 1 else 0

structure Date.Valid (first top : ℕ) (d : Date) : Prop where
  first_le : first ≤ d.year
  lt_top : d.year < top
  month_pos : 1 ≤ d.month
  month_le : d.month ≤ 12
  day_pos : 1 ≤ d.day
  day_le : d.day ≤ daysInMonth d.year d.month

variable (first top : ℕ)

/-- The first day of the next month. -/
def nextMonth (d : Date) : Date :=
  if d.month + 1 = 13 then ⟨if d.year + 1 = top then first else d.year + 1, 1, 1⟩
  else ⟨d.year, d.month + 1, 1⟩

def nextDay (d : Date) : Date :=
  if d.day < daysInMonth d.year d.month then { d with day := d.day + 1 }
  else nextMonth first top d

def epoch : Date := ⟨first, 1, 1⟩

variable {first top} {d : Date}

theorem daysInMonth_pos {year month : ℕ} (hpos : 1 ≤ month) (hle : month ≤ 12) :
    1 ≤ daysInMonth year month := by
  interval_cases month <;> simp [daysInMonth]
  omega

theorem daysInMonth_le {year month : ℕ} (hpos : 1 ≤ month) (hle : month ≤ 12) :
    daysInMonth year month ≤ 31 := by
  interval_cases month <;> simp [daysInMonth]
  split_ifs <;> omega

/-- Days of the month that are left. -/
theorem iterate_days (k : ℕ) (hk : d.day + k ≤ daysInMonth d.year d.month) :
    (nextDay first top)^[k] d = { d with day := d.day + k } := by
  induction k with
  | zero => rfl
  | succ k ih =>
    rw [Function.iterate_succ_apply', ih (by omega), nextDay, if_pos]
    · rfl
    · change d.day + k < daysInMonth d.year d.month
      omega

theorem iterate_month (hday : d.day ≤ daysInMonth d.year d.month) :
    (nextDay first top)^[daysInMonth d.year d.month - d.day + 1] d = nextMonth first top d := by
  rw [Function.iterate_succ_apply', iterate_days _ (by omega), nextDay, if_neg]
  · rfl
  · change ¬d.day + (daysInMonth d.year d.month - d.day) < daysInMonth d.year d.month
    omega

/-- A whole month, from its first day. -/
theorem iterate_firstOfMonth {year month : ℕ} (hpos : 1 ≤ month) (hle : month ≤ 12) :
    (nextDay first top)^[daysInMonth year month] ⟨year, month, 1⟩ =
      nextMonth first top ⟨year, month, 1⟩ := by
  have hmonth : 1 ≤ daysInMonth year month := daysInMonth_pos hpos hle
  have hsame : daysInMonth year month = daysInMonth year month - 1 + 1 := by omega
  rw [hsame]
  exact @iterate_month first top ⟨year, month, 1⟩ hmonth

/-- The days of the first months of a year. -/
def daysBefore (year : ℕ) : ℕ → ℕ
  | 0 => 0
  | months + 1 => daysBefore year months + daysInMonth year (months + 1)

/-- The days of the first years. -/
def daysBeforeYear (first : ℕ) : ℕ → ℕ
  | 0 => 0
  | years + 1 => daysBeforeYear first years + daysBefore (first + years) 12

/-- The number of days from the first of all to a date. -/
def index (first : ℕ) (d : Date) : ℕ :=
  daysBeforeYear first (d.year - first) + daysBefore d.year (d.month - 1) + (d.day - 1)

theorem daysBefore_year (year : ℕ) : daysBefore year 12 = 365 + if year % 4 = 0 then 1 else 0 := by
  have hfebruary : daysInMonth year 2 = 28 + if year % 4 = 0 then 1 else 0 := by
    simp [daysInMonth]
  have hlong : ∀ month ∈ [1, 3, 5, 7, 8, 10, 12], daysInMonth year month = 31 := by
    simp [daysInMonth]
  have hshort : ∀ month ∈ [4, 6, 9, 11], daysInMonth year month = 30 := by
    simp [daysInMonth]
  simp only [List.forall_mem_cons, List.not_mem_nil, false_imp_iff, forall_const, and_true]
    at hlong hshort
  obtain ⟨h1, h3, h5, h7, h8, h10, h12⟩ := hlong
  obtain ⟨h4, h6, h9, h11⟩ := hshort
  simp only [daysBefore, Nat.reduceAdd, hfebruary, h1, h3, h4, h5, h6, h7, h8, h9, h10, h11, h12]
  omega

theorem daysBeforeYear_four (hfirst : first % 4 = 0) (quads : ℕ) :
    daysBeforeYear first (4 * quads) = 1461 * quads := by
  induction quads with
  | zero => rfl
  | succ quads ih =>
    have hyears : 4 * (quads + 1) = 4 * quads + 1 + 1 + 1 + 1 := by omega
    rw [hyears, daysBeforeYear, daysBeforeYear, daysBeforeYear, daysBeforeYear, ih]
    simp only [daysBefore_year]
    rw [if_pos (by omega), if_neg (by omega), if_neg (by omega), if_neg (by omega)]
    omega

theorem iterate_months (year : ℕ) {months : ℕ} (hmonths : months ≤ 11) :
    (nextDay first top)^[daysBefore year months] ⟨year, 1, 1⟩ = ⟨year, months + 1, 1⟩ := by
  induction months with
  | zero => rfl
  | succ months ih =>
    rw [daysBefore, Nat.add_comm, Function.iterate_add_apply, ih (by omega),
      iterate_firstOfMonth (by omega) (by omega), nextMonth, if_neg]
    change ¬months + 1 + 1 = 13
    omega

theorem iterate_year (year : ℕ) :
    (nextDay first top)^[daysBefore year 12] ⟨year, 1, 1⟩ =
      ⟨if year + 1 = top then first else year + 1, 1, 1⟩ := by
  rw [daysBefore, Nat.add_comm, Function.iterate_add_apply, iterate_months year (by omega),
    iterate_firstOfMonth (by omega) (by omega), nextMonth, if_pos rfl]

theorem iterate_years {years : ℕ} (hyears : first + years < top) :
    (nextDay first top)^[daysBeforeYear first years] (epoch first) = ⟨first + years, 1, 1⟩ := by
  induction years with
  | zero => rfl
  | succ years ih =>
    rw [daysBeforeYear, Nat.add_comm, Function.iterate_add_apply, ih (by omega), iterate_year,
      if_neg (by omega)]
    rfl

/-- Every date is a number of days behind the first one. -/
theorem iterate_index (h : d.Valid first top) :
    (nextDay first top)^[index first d] (epoch first) = d := by
  obtain ⟨hfirst, htop, hmonthPos, hmonthLe, hdayPos, hdayLe⟩ := h
  have hyear : first + (d.year - first) = d.year := by omega
  have hmonth : d.month - 1 + 1 = d.month := by omega
  have hyears : (nextDay first top)^[daysBeforeYear first (d.year - first)] (epoch first) =
      ⟨first + (d.year - first), 1, 1⟩ := iterate_years (by omega)
  rw [hyear] at hyears
  rw [index, Nat.add_comm, Function.iterate_add_apply, Nat.add_comm (daysBeforeYear first _),
    Function.iterate_add_apply, hyears, iterate_months d.year (by omega), hmonth, iterate_days]
  · change (⟨d.year, d.month, 1 + (d.day - 1)⟩ : Date) = d
    rw [show 1 + (d.day - 1) = d.day by omega]
  · change 1 + (d.day - 1) ≤ daysInMonth d.year d.month
    omega

/-- After the last year comes the first one. -/
theorem iterate_period_epoch {years : ℕ} (hyears : 0 < years) :
    (nextDay first (first + years))^[daysBeforeYear first years] (epoch first) = epoch first := by
  obtain ⟨before, rfl⟩ : ∃ before, years = before + 1 := ⟨years - 1, by omega⟩
  rw [daysBeforeYear, Nat.add_comm (daysBeforeYear first before), Function.iterate_add_apply,
    iterate_years (by omega), iterate_year, if_pos (by omega)]
  rfl

theorem isPeriodicPt_nextDay {years : ℕ} (h : d.Valid first (first + years)) :
    Function.IsPeriodicPt (nextDay first (first + years)) (daysBeforeYear first years) d := by
  have hyears : 0 < years := by
    have hle := h.first_le
    have hlt := h.lt_top
    omega
  have hepoch : Function.IsPeriodicPt (nextDay first (first + years)) (daysBeforeYear first years)
      (epoch first) := iterate_period_epoch hyears
  rw [← iterate_index h]
  exact hepoch.apply_iterate _

/-- Days modulo those of all years. -/
theorem iterate_mod {years : ℕ} (h : d.Valid first (first + years)) (days : ℕ) :
    (nextDay first (first + years))^[days % daysBeforeYear first years] d =
      (nextDay first (first + years))^[days] d :=
  (isPeriodicPt_nextDay h).iterate_mod_apply days

theorem valid_firstOfMonth {year month : ℕ} (hfirst : first ≤ year) (htop : year < top)
    (hpos : 1 ≤ month) (hle : month ≤ 12) : Date.Valid first top ⟨year, month, 1⟩ :=
  ⟨hfirst, htop, hpos, hle, le_refl 1, daysInMonth_pos hpos hle⟩

theorem valid_nextMonth (h : d.Valid first top) : (nextMonth first top d).Valid first top := by
  obtain ⟨hfirst, htop, hmonthPos, hmonthLe, hdayPos, hdayLe⟩ := h
  rw [nextMonth]
  split_ifs with hmonth hyear
  · exact valid_firstOfMonth (le_refl first) (by omega) (by omega) (by omega)
  · exact valid_firstOfMonth (by omega) (by omega) (by omega) (by omega)
  · exact valid_firstOfMonth hfirst htop (by omega) (by omega)

theorem valid_nextDay (h : d.Valid first top) : (nextDay first top d).Valid first top := by
  rw [nextDay]
  split_ifs with hday
  · obtain ⟨hfirst, htop, hmonthPos, hmonthLe, hdayPos, hdayLe⟩ := h
    exact ⟨hfirst, htop, hmonthPos, hmonthLe, Nat.le_add_left 1 _, hday⟩
  · exact valid_nextMonth h

theorem valid_iterate (h : d.Valid first top) (days : ℕ) :
    ((nextDay first top)^[days] d).Valid first top := by
  induction days with
  | zero => exact h
  | succ days ih =>
    rw [Function.iterate_succ_apply']
    exact valid_nextDay ih

theorem daysBefore_mono (year : ℕ) : Monotone (daysBefore year) :=
  monotone_nat_of_le_succ fun months => Nat.le_add_right (daysBefore year months) _

theorem daysBeforeYear_mono (first : ℕ) : Monotone (daysBeforeYear first) :=
  monotone_nat_of_le_succ fun years => Nat.le_add_right (daysBeforeYear first years) _

theorem daysBefore_month (year : ℕ) {month : ℕ} (hpos : 1 ≤ month) :
    daysBefore year (month - 1) + daysInMonth year month = daysBefore year month := by
  obtain ⟨before, rfl⟩ : ∃ before, month = before + 1 := ⟨month - 1, by omega⟩
  rfl

theorem daysBeforeYear_year {year : ℕ} (hfirst : first ≤ year) :
    daysBeforeYear first (year - first) + daysBefore year 12 =
      daysBeforeYear first (year - first + 1) := by
  rw [daysBeforeYear, show first + (year - first) = year by omega]

/-- A date lies before the end of its month, and so before the end of all years. -/
theorem index_lt {years : ℕ} (h : d.Valid first (first + years)) :
    index first d < daysBeforeYear first years := by
  obtain ⟨hfirst, htop, hmonthPos, hmonthLe, hdayPos, hdayLe⟩ := h
  have hmonth := daysBefore_month d.year hmonthPos
  have hyear := daysBeforeYear_year hfirst
  have hwithin : daysBefore d.year d.month ≤ daysBefore d.year 12 := daysBefore_mono d.year hmonthLe
  have hall : daysBeforeYear first (d.year - first + 1) ≤ daysBeforeYear first years :=
    daysBeforeYear_mono first (by omega)
  unfold index
  omega

theorem index_nextMonth {years : ℕ} (h : d.Valid first (first + years)) :
    index first (nextMonth first (first + years) d) =
      (index first d + (daysInMonth d.year d.month - d.day + 1)) % daysBeforeYear first years := by
  have hnext := index_lt (valid_nextMonth h)
  obtain ⟨hfirst, htop, hmonthPos, hmonthLe, hdayPos, hdayLe⟩ := h
  have hmonth := daysBefore_month d.year hmonthPos
  have hyear := daysBeforeYear_year hfirst
  have hend : index first d + (daysInMonth d.year d.month - d.day + 1) =
      daysBeforeYear first (d.year - first) + daysBefore d.year d.month := by
    unfold index
    omega
  rw [hend]
  unfold nextMonth at hnext ⊢
  by_cases hlast : d.month + 1 = 13
  · rw [if_pos hlast] at hnext ⊢
    rw [show d.month = 12 by omega, hyear]
    by_cases htopYear : d.year + 1 = first + years
    · rw [if_pos htopYear, show d.year - first + 1 = years by omega, Nat.mod_self]
      simp [index, daysBefore, daysBeforeYear]
    · rw [if_neg htopYear] at hnext ⊢
      have heq : index first ⟨d.year + 1, 1, 1⟩ = daysBeforeYear first (d.year - first + 1) := by
        simp [index, daysBefore, show d.year + 1 - first = d.year - first + 1 by omega]
      rw [heq] at hnext ⊢
      exact (Nat.mod_eq_of_lt hnext).symm
  · rw [if_neg hlast] at hnext ⊢
    have heq : index first ⟨d.year, d.month + 1, 1⟩ =
        daysBeforeYear first (d.year - first) + daysBefore d.year d.month := by
      simp [index]
    rw [heq] at hnext ⊢
    exact (Nat.mod_eq_of_lt hnext).symm

theorem index_nextDay {years : ℕ} (h : d.Valid first (first + years)) :
    index first (nextDay first (first + years) d) =
      (index first d + 1) % daysBeforeYear first years := by
  by_cases hday : d.day < daysInMonth d.year d.month
  · have hnext := index_lt (valid_nextDay h)
    rw [nextDay, if_pos hday] at hnext ⊢
    have heq : index first { d with day := d.day + 1 } = index first d + 1 := by
      have hpos := h.day_pos
      simp only [index]
      omega
    rw [heq] at hnext ⊢
    exact (Nat.mod_eq_of_lt hnext).symm
  · rw [nextDay, if_neg hday, index_nextMonth h]
    have hle := h.day_le
    rw [show daysInMonth d.year d.month - d.day + 1 = 1 by omega]

/-- Days passed are days counted, modulo those of all years. -/
theorem index_iterate {years : ℕ} (h : d.Valid first (first + years)) (days : ℕ) :
    index first ((nextDay first (first + years))^[days] d) =
      (index first d + days) % daysBeforeYear first years := by
  induction days with
  | zero => exact (Nat.mod_eq_of_lt (index_lt h)).symm
  | succ days ih =>
    rw [Function.iterate_succ_apply', index_nextDay (valid_iterate h days), ih, Nat.mod_add_mod,
      Nat.add_assoc]

end RooTesting.LeapCalendar
