import MultiThreadLog.Lib.Calendar
import MultiThreadLog.Lib.CInt

/-!
# `Date`

The Julian day number of a date and back (`Date.cc`), in the arithmetic of `int`. In the range of
`getYearMonthDay` both compute what the calendar says (`getYearMonthDay_eq`,
`getJulianDayNumber_eq`), day 0 of the calendar being Julian day 2440588, and Julian day numbers
count its days (`julianDay_counts`).
-/

namespace MultiThreadLog

open CInt Calendar

def getJulianDayNumber (year month day : Int) : Option Int := do
  let a ← div (← sub 14 month) 12
  let y ← sub (← add year 4800) a
  let m ← sub (← add month (← mul 12 a)) 3
  sub (← add (← sub (← add (← add (← add day (← div (← add (← mul 153 m) 2) 5)) (← mul y 365))
    (← div y 4)) (← div y 100)) (← div y 400)) 32045

/-- `Date::YearMonthDay`. -/
abbrev YearMonthDay := Calendar.Date

def getYearMonthDay (julianDayNumber : Int) : Option YearMonthDay := do
  let a ← add julianDayNumber 32044
  let b ← div (← add (← mul 4 a) 3) 146097
  let c ← sub a (← div (← mul b 146097) 4)
  let d ← div (← add (← mul 4 c) 3) 1461
  let e ← sub c (← div (← mul 1461 d) 4)
  let m ← div (← add (← mul 5 e) 2) 153
  return {
    day := ← add (← sub e (← div (← add (← mul 153 m) 2) 5)) 1
    month := ← sub (← add m 3) (← mul 12 (← div m 10))
    year := ← add (← sub (← add (← mul b 100) d) 4800) (← div m 10) }

structure Date where
  julianDayNumber : Int

namespace Date

def kDaysPerWeek : Int := 7

def kJulianDayOf1970_01_01 : Int := (getJulianDayNumber 1970 1 1).getD 0

/-- `Date(year, month, day)`. -/
def ofYearMonthDay (year month day : Int) : Option Date :=
  (getJulianDayNumber year month day).map Date.mk

def yearMonthDay (d : Date) : Option YearMonthDay := getYearMonthDay d.julianDayNumber

def weekDay (d : Date) : Option Int := do mod (← add d.julianDayNumber 1) kDaysPerWeek

theorem kJulianDay_eq : kJulianDayOf1970_01_01 = 2440588 := by decide

end Date

/-- The Julian day numbers whose date `getYearMonthDay` can compute. -/
def JulianRange (j : Int) : Prop := -32044 ≤ j ∧ j ≤ 536838867

theorem getYearMonthDay_eq {j : Int} (h : JulianRange j) :
    getYearMonthDay j = some (dateOf (j - 2440588)) := by
  obtain ⟨h, h'⟩ := h
  obtain ⟨a, ha⟩ : ∃ a, a = j + 32044 := ⟨_, rfl⟩
  obtain ⟨b, hb⟩ : ∃ b, b = (4 * a + 3) / 146097 := ⟨_, rfl⟩
  obtain ⟨c, hc⟩ : ∃ c, c = a - b * 146097 / 4 := ⟨_, rfl⟩
  obtain ⟨d, hd⟩ : ∃ d, d = (4 * c + 3) / 1461 := ⟨_, rfl⟩
  obtain ⟨e, he⟩ : ∃ e, e = c - 1461 * d / 4 := ⟨_, rfl⟩
  obtain ⟨m, hm⟩ : ∃ m, m = (5 * e + 2) / 153 := ⟨_, rfl⟩
  have ha' : 0 ≤ a ∧ a ≤ 536870911 := by omega
  have hb' : 0 ≤ b ∧ b ≤ 14699 ∧ b * 146097 ≤ 2147483647 := by omega
  have hc' : 0 ≤ c ∧ c ≤ 36524 := by omega
  have hd' : 0 ≤ d ∧ d ≤ 99 := by omega
  have he' : 0 ≤ e ∧ e ≤ 365 := by omega
  have hm' : 0 ≤ m ∧ m ≤ 11 := by omega
  -- the code counts from 1 March -4800, which is 48 centuries earlier
  have hdate : dateOf (j - 2440588) =
      ⟨b * 100 + d - 4800 + m / 10, m + 3 - 12 * (m / 10), e - (153 * m + 2) / 5 + 1⟩ := by
    have e1 : (4 * (j - 2440588 + 719468) + 3) / 146097 = b - 48 := by omega
    have e2 : j - 2440588 + 719468 - 146097 * (b - 48) / 4 = c := by omega
    simp only [dateOf, e1, e2, ← hd, ← he, ← hm, Calendar.Date.mk.injEq, and_true]
    omega
  rw [hdate, getYearMonthDay, add_bind, ← ha, mul_bind, add_bind, div_bind, ← hb, mul_bind,
    div_bind, sub_bind, ← hc, mul_bind, add_bind, div_bind, ← hd, mul_bind, div_bind, sub_bind,
    ← he, mul_bind, add_bind, div_bind, ← hm]
  · clear ha hb hc hd he hm h h' hdate
    rw [mul_bind, add_bind, div_bind, sub_bind, add_bind, add_bind, div_bind, mul_bind, sub_bind,
      mul_bind, add_bind, sub_bind, div_bind, add_bind]
    · rfl
    all_goals omega
  all_goals omega

/-- The dates from 1 March -4800 on that `getJulianDayNumber` is asked for. -/
theorem getJulianDayNumber_eq {year month day : Int} (hm : 1 ≤ month ∧ month ≤ 12)
    (hd : 1 ≤ day ∧ day ≤ 31) (hy : (14 - month) / 12 ≤ year + 4800) (hy' : year ≤ 1469000) :
    getJulianDayNumber year month day = some (dayNumber ⟨year, month, day⟩ + 2440588) := by
  obtain ⟨a, ha⟩ : ∃ a, a = (14 - month) / 12 := ⟨_, rfl⟩
  obtain ⟨y, hy0⟩ : ∃ y, y = year + 4800 - a := ⟨_, rfl⟩
  obtain ⟨m, hm0⟩ : ∃ m, m = month + 12 * a - 3 := ⟨_, rfl⟩
  have ha' : 0 ≤ a ∧ a ≤ 1 := by omega
  have hm' : 0 ≤ m ∧ m ≤ 11 := by omega
  have hyn : 0 ≤ y := by omega
  have hnumber : day + (153 * m + 2) / 5 + y * 365 + y / 4 - y / 100 + y / 400 - 32045 =
      dayNumber ⟨year, month, day⟩ + 2440588 := by
    have hleap := leapDays_succ year
    unfold leapDays at hleap
    obtain ⟨hm1, hm12⟩ := hm
    subst hm0 hy0 ha
    unfold dayNumber leapDays
    interval_cases month <;>
      simp only [daysBeforeMonth, Int.reduceDiv, Int.reduceMul, Int.reduceAdd, Int.reduceSub,
        Int.reduceToNat, List.getD_cons_succ, List.getD_cons_zero, Int.reduceLT, true_and,
        false_and, ite_false, Int.add_zero] <;>
      omega
  rw [← hnumber, getJulianDayNumber, sub_bind, div_bind, ← ha, add_bind, sub_bind, ← hy0, mul_bind,
    add_bind, sub_bind, ← hm0]
  · clear ha hm0 hnumber hm
    rw [mul_bind, add_bind, div_bind, add_bind, mul_bind, add_bind, div_bind, add_bind, div_bind,
      sub_bind, div_bind, add_bind, sub_eq]
    all_goals omega
  all_goals omega

theorem dateOf_first : dateOf (-32044 - 2440588) = ⟨-4800, 3, 1⟩ := by decide

theorem dateOf_last : dateOf (536838867 - 2440588) = ⟨1465102, 10, 18⟩ := by decide

/-- The dates that `getYearMonthDay` can compute, by their place in the calendar. -/
theorem julianRange_iff {d : Calendar.Date} (hd : d.Valid) :
    JulianRange (dayNumber d + 2440588) ↔ ⟨-4800, 3, 1⟩ ≤ d ∧ d ≤ ⟨1465102, 10, 18⟩ := by
  have hfirst : dayNumber ⟨-4800, 3, 1⟩ = -32044 - 2440588 := by decide
  have hlast : dayNumber ⟨1465102, 10, 18⟩ = 536838867 - 2440588 := by decide
  have hvf : Calendar.Date.Valid ⟨-4800, 3, 1⟩ := dateOf_first ▸ dateOf_valid _
  have hvl : Calendar.Date.Valid ⟨1465102, 10, 18⟩ := dateOf_last ▸ dateOf_valid _
  rw [dayNumber_le_iff hvf hd, dayNumber_le_iff hd hvl, hfirst, hlast, JulianRange]
  omega

/-- In that range a date is one that `getJulianDayNumber` can take. -/
theorem getJulianDayNumber_of_valid {d : Calendar.Date} (hd : d.Valid)
    (h : JulianRange (dayNumber d + 2440588)) :
    getJulianDayNumber d.year d.month d.day = some (dayNumber d + 2440588) := by
  obtain ⟨hfirst, hlast⟩ := (julianRange_iff hd).mp h
  have hdays := daysInMonth_bounds (y := d.year) (m := d.month)
  obtain ⟨hm, h1, h2⟩ := hd
  have hlow : (14 - d.month) / 12 ≤ d.year + 4800 := by
    rcases hfirst with (h | ⟨h, h' | ⟨h', -⟩⟩) | rfl <;> simp only at * <;> omega
  have hhigh : d.year ≤ 1469000 := by
    rcases hlast with (h | ⟨h, -⟩) | rfl <;> simp only at * <;> omega
  exact getJulianDayNumber_eq hm ⟨h1, by omega⟩ hlow hhigh

/-- **Julian day number and date determine each other.** For every day number in the range the
date is valid and has that number; for every valid date from the first to the last day of the
range the number has that date. No intermediate result overflows. -/
theorem julianDay_inverse :
    (∀ j, -32044 ≤ j → j ≤ 536838867 → ∃ d, getYearMonthDay j = some d ∧ d.Valid ∧
      getJulianDayNumber d.year d.month d.day = some j) ∧
    getYearMonthDay 536838867 = some ⟨1465102, 10, 18⟩ ∧
    ∀ d : YearMonthDay, d.Valid → ⟨-4800, 3, 1⟩ ≤ d → d ≤ ⟨1465102, 10, 18⟩ →
      ∃ j, getJulianDayNumber d.year d.month d.day = some j ∧ getYearMonthDay j = some d := by
  refine ⟨fun j h h' => ?_, by decide, fun d hd hfirst hlast => ?_⟩
  · have hj : dayNumber (dateOf (j - 2440588)) + 2440588 = j := by
      rw [dayNumber_dateOf]
      omega
    have hv := dateOf_valid (j - 2440588)
    refine ⟨_, getYearMonthDay_eq ⟨h, h'⟩, hv, ?_⟩
    rw [getJulianDayNumber_of_valid hv (by rw [hj]; exact ⟨h, h'⟩), hj]
  · have hr := (julianRange_iff hd).mpr ⟨hfirst, hlast⟩
    refine ⟨_, getJulianDayNumber_of_valid hd hr, ?_⟩
    rw [getYearMonthDay_eq hr, Int.add_sub_cancel, dateOf_dayNumber hd]

/-! ## Counting days -/

/-- The valid dates that the number is asked for, with the day that follows the last of them. -/
theorem julianRange_of_year {d : Calendar.Date} (hd : d.Valid) (hfirst : ⟨-4800, 3, 1⟩ ≤ d)
    (hlast : d.year ≤ 1465101) :
    JulianRange (dayNumber d + 2440588) ∧ JulianRange (dayNumber d.next + 2440588) := by
  have hbounds := hd.bounds
  have hyear := dayNumber_year_le (a := d.year + 1) (b := 1465102) (by omega)
  have hlow := (julianRange_iff hd).mpr ⟨hfirst, .inl (.inl (by simp only; omega))⟩
  have hend : dayNumber ⟨1465102, 1, 1⟩ = 536838577 - 2440588 := by decide
  have hlow' := hlow.1
  rw [dayNumber_next hd, JulianRange, JulianRange]
  omega

/-- **Julian day numbers count the days of the calendar.** From 1 March -4800 to the end of the
year 1465101 the date that follows a date has the next number; so the numbers follow the order
of the calendar, and from one date to another it is as many days as their numbers differ by. -/
theorem julianDay_counts :
    (∀ d : YearMonthDay, d.Valid → ⟨-4800, 3, 1⟩ ≤ d → d.year ≤ 1465101 →
      ∃ j, getJulianDayNumber d.year d.month d.day = some j ∧
        getJulianDayNumber d.next.year d.next.month d.next.day = some (j + 1)) ∧
    ∀ d e : YearMonthDay, d.Valid → ⟨-4800, 3, 1⟩ ≤ d → d.year ≤ 1465101 →
      e.Valid → ⟨-4800, 3, 1⟩ ≤ e → e.year ≤ 1465101 →
      ∃ j k, getJulianDayNumber d.year d.month d.day = some j ∧
        getJulianDayNumber e.year e.month e.day = some k ∧ (j < k ↔ d < e) ∧
        ∀ n : Nat, Calendar.Date.next^[n] d = e ↔ (n : Int) = k - j := by
  refine ⟨fun d hd hfirst hlast => ?_, fun d e hd hfirst hlast he hfirst' hlast' => ?_⟩
  · obtain ⟨hr, hr'⟩ := julianRange_of_year hd hfirst hlast
    refine ⟨_, getJulianDayNumber_of_valid hd hr, ?_⟩
    rw [getJulianDayNumber_of_valid hd.next hr', dayNumber_next hd, Int.add_right_comm]
  · have hr := (julianRange_of_year hd hfirst hlast).1
    have hr' := (julianRange_of_year he hfirst' hlast').1
    refine ⟨_, _, getJulianDayNumber_of_valid hd hr, getJulianDayNumber_of_valid he hr', ?_,
      fun n => ?_⟩
    · rw [← dayNumber_lt_iff hd he]
      omega
    · rw [iterate_next_eq_iff hd he]
      omega

/-- The end of February in a year that is not a leap year. -/
theorem julianDay_counts_1900 :
    ∃ j, getJulianDayNumber 1900 2 28 = some j ∧ getJulianDayNumber 1900 3 1 = some (j + 1) :=
  julianDay_counts.1 ⟨1900, 2, 28⟩ ⟨by decide, by decide⟩ (.inl (.inl (by decide))) (by decide)

end MultiThreadLog
