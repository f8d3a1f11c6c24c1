import Mathlib.Data.Int.DivMod
import Mathlib.Tactic.IntervalCases

/-!
# The proleptic Gregorian calendar

Dates and day numbers, day 0 being 1 January 1970. `dayNumber` counts days from the rule of the
calendar: 365 days a year, one more in leap years, the month lengths. `dateOf` goes back, by
centuries, years and months of a year that starts in March. `dayNumber_dateOf` says that no day
is lost on the way, `dayNumber_lt` that day numbers follow the calendar; so `dateOf` and
`dayNumber` are inverse to each other on the valid dates (`dateOf_dayNumber`). `Date.next` steps
through the calendar by its rules, each step one day number on (`dayNumber_next`).
-/

namespace Calendar

structure Date where
  year : Int
  month : Int
  day : Int
  deriving DecidableEq, Repr

def isLeap (y : Int) : Bool := y % 4 = 0 && (y % 100 ≠ 0 || y % 400 = 0)

def daysInMonth (y m : Int) : Int :=
  if m = 2 then if isLeap y then 29 else 28
  else if m = 4 ∨ m = 6 ∨ m = 9 ∨ m = 11 then 30 else 31

/-- The date exists. -/
structure Date.Valid (d : Date) : Prop where
  month : 1 ≤ d.month ∧ d.month ≤ 12
  day : 1 ≤ d.day ∧ d.day ≤ daysInMonth d.year d.month

/-- Calendar order. -/
instance : LT Date where
  lt d e := d.year < e.year ∨ d.year = e.year ∧
    (d.month < e.month ∨ d.month = e.month ∧ d.day < e.day)

instance : LE Date where
  le d e := d < e ∨ d = e

/-- The date that follows: the next day of the month, or the first of the next month, or
1 January of the next year. -/
def Date.next (d : Date) : Date :=
  if d.day < daysInMonth d.year d.month then ⟨d.year, d.month, d.day + 1⟩
  else if d.month < 12 then ⟨d.year, d.month + 1, 1⟩
  else ⟨d.year + 1, 1, 1⟩

/-- The leap days in the years up to and including `y`, counted from year 1. -/
def leapDays (y : Int) : Int := y / 4 - y / 100 + y / 400

/-- The days of a common year before month `m`. -/
def daysBeforeMonth (m : Int) : Int :=
  [0, 31, 59, 90, 120, 151, 181, 212, 243, 273, 304, 334].getD (m - 1).toNat 0

/-- Days from 1 January 1970 to the date. -/
def dayNumber (d : Date) : Int :=
  365 * (d.year - 1) + leapDays (d.year - 1) - 719162 + daysBeforeMonth d.month +
    (if 2 < d.month ∧ isLeap d.year then 1 else 0) + (d.day - 1)

/-- The date of a day number. -/
def dateOf (n : Int) : Date :=
  let a := n + 719468                 -- days since 1 March of year 0
  let b := (4 * a + 3) / 146097       -- centuries
  let c := a - 146097 * b / 4
  let d := (4 * c + 3) / 1461         -- years of the century
  let e := c - 1461 * d / 4
  let m := (5 * e + 2) / 153          -- months since March
  { year := 100 * b + d + m / 10
    month := m + 3 - 12 * (m / 10)
    day := e - (153 * m + 2) / 5 + 1 }

theorem leapDays_succ (y : Int) : leapDays y = leapDays (y - 1) + if isLeap y then 1 else 0 := by
  unfold leapDays isLeap
  split <;> rename_i h <;>
    simp only [Bool.and_eq_true, Bool.or_eq_true, decide_eq_true_eq, ne_eq] at h <;> omega

/-- Where `dateOf` lands: year `y` and month `m` since March, day `e` of that year. -/
theorem dateOf_eq (n : Int) :
    ∃ y m e : Int, 0 ≤ m ∧ m ≤ 11 ∧ (153 * m + 2) / 5 ≤ e ∧ e < (153 * (m + 1) + 2) / 5 ∧
      e < 365 + leapDays (y + 1) - leapDays y ∧ n + 719468 = 365 * y + leapDays y + e ∧
      dateOf n = ⟨y + m / 10, m + 3 - 12 * (m / 10), e - (153 * m + 2) / 5 + 1⟩ := by
  let a := n + 719468
  let b := (4 * a + 3) / 146097
  let c := a - 146097 * b / 4
  let d := (4 * c + 3) / 1461
  let e := c - 1461 * d / 4
  let m := (5 * e + 2) / 153
  have hc : 0 ≤ c ∧ c ≤ 36524 := by omega
  have hd : 0 ≤ d ∧ d ≤ 99 := by omega
  have he : 0 ≤ e ∧ e ≤ 365 := by omega
  have hb : 146097 * b / 4 = 36524 * b + b / 4 := by omega
  have hy : 1461 * d / 4 = 365 * d + d / 4 := by omega
  have h4 : (100 * b + d) / 4 = 25 * b + d / 4 := by omega
  have h100 : (100 * b + d) / 100 = b := by omega
  have h400 : (100 * b + d) / 400 = b / 4 := by omega
  refine ⟨100 * b + d, m, e, by omega, by omega, by omega, by omega, ?_, ?_, rfl⟩
  · have h4' : (100 * b + d + 1) / 4 = 25 * b + (d + 1) / 4 := by omega
    rw [leapDays, leapDays, h4, h100, h400, h4']
    rcases (show d ≤ 98 ∨ d = 99 by omega) with h | h
    · have h100' : (100 * b + d + 1) / 100 = b := by omega
      have h400' : (100 * b + d + 1) / 400 = b / 4 := by omega
      omega
    · have h100' : (100 * b + d + 1) / 100 = b + 1 := by omega
      have h400' : (100 * b + d + 1) / 400 = (b + 1) / 4 := by omega
      omega
  · rw [leapDays, h4, h100, h400]
    omega

theorem dayNumber_dateOf (n : Int) : dayNumber (dateOf n) = n := by
  obtain ⟨y, m, e, h0, h11, -, -, -, hn, hd⟩ := dateOf_eq n
  rw [hd]
  have hl := leapDays_succ y
  unfold dayNumber
  interval_cases m <;>
    simp only [daysBeforeMonth, Int.reduceDiv, Int.reduceMul, Int.reduceAdd, Int.reduceSub,
      Int.reduceToNat, List.getD_cons_succ, List.getD_cons_zero, Int.reduceLT, true_and,
      false_and, ite_false, Int.add_zero, Int.add_sub_cancel] <;>
    omega

theorem dateOf_month (n : Int) : 1 ≤ (dateOf n).month ∧ (dateOf n).month ≤ 12 := by
  obtain ⟨y, m, e, h0, h11, -, -, -, -, hd⟩ := dateOf_eq n
  rw [hd]
  constructor <;> simp only <;> omega

theorem dateOf_day (n : Int) : 1 ≤ (dateOf n).day ∧ (dateOf n).day ≤ 31 := by
  obtain ⟨y, m, e, h0, h11, h1, h2, -, -, hd⟩ := dateOf_eq n
  rw [hd]
  constructor <;> simp only <;> omega

/-- Between 1 January 1000 and 31 December 9999 the year has four digits. -/
theorem dateOf_year {n : Int} (h1 : -354285 ≤ n) (h2 : n ≤ 2932896) :
    1000 ≤ (dateOf n).year ∧ (dateOf n).year ≤ 9999 := by
  obtain ⟨y, m, e, h0, h11, h3, h4, h5, hn, hd⟩ := dateOf_eq n
  unfold leapDays at hn
  rw [hd]
  constructor
  · rcases (show y ≤ 998 ∨ y = 999 ∨ 1000 ≤ y by omega) with h | rfl | h <;> simp only <;> omega
  · rcases (show y ≤ 9998 ∨ y = 9999 ∨ 10000 ≤ y by omega) with h | rfl | h <;> simp only <;> omega

/-! ## Day numbers follow the calendar -/

variable {d e : Date} {y m a b : Int}

theorem daysInMonth_bounds : 28 ≤ daysInMonth y m ∧ daysInMonth y m ≤ 31 := by
  unfold daysInMonth
  repeat' split <;> omega

theorem dayNumber_day (d : Date) : dayNumber d = dayNumber ⟨d.year, d.month, 1⟩ + (d.day - 1) := by
  simp only [dayNumber]
  omega

/-- The first days of two months of one year. -/
theorem dayNumber_month_succ (h : 1 ≤ m) (h' : m ≤ 11) :
    dayNumber ⟨y, m + 1, 1⟩ = dayNumber ⟨y, m, 1⟩ + daysInMonth y m := by
  unfold dayNumber daysInMonth
  interval_cases m <;>
    simp [daysBeforeMonth] <;> split <;> omega

/-- The first days of two years. -/
theorem dayNumber_year_succ (y : Int) :
    dayNumber ⟨y + 1, 1, 1⟩ = dayNumber ⟨y, 12, 1⟩ + daysInMonth y 12 := by
  have hl := leapDays_succ y
  simp only [dayNumber, daysInMonth, daysBeforeMonth, Int.add_sub_cancel, Int.reduceSub,
    Int.reduceToNat, List.getD_cons_succ, List.getD_cons_zero]
  split at hl <;> simp [*] <;> omega

/-- A year has 365 days, or 366. -/
theorem dayNumber_year_length (y : Int) :
    dayNumber ⟨y + 1, 1, 1⟩ = dayNumber ⟨y, 1, 1⟩ + 365 + if isLeap y then 1 else 0 := by
  have hl := leapDays_succ y
  simp only [dayNumber, Int.add_sub_cancel, Int.reduceLT, false_and, if_false]
  omega

theorem dayNumber_month_le (h : 1 ≤ a) (hm : a ≤ b) (h' : b ≤ 12) :
    dayNumber ⟨y, a, 1⟩ ≤ dayNumber ⟨y, b, 1⟩ := by
  induction b, hm using Int.leInduction with
  | base => exact Int.le_refl _
  | succ k hk ih =>
    have hle := ih (by omega)
    have hnext := dayNumber_month_succ (y := y) (m := k) (by omega) (by omega)
    have := daysInMonth_bounds (y := y) (m := k)
    omega

theorem dayNumber_year_le (hy : a ≤ b) : dayNumber ⟨a, 1, 1⟩ ≤ dayNumber ⟨b, 1, 1⟩ := by
  induction b, hy using Int.leInduction with
  | base => exact Int.le_refl _
  | succ k hk ih =>
    have hnext := dayNumber_year_succ k
    have hmonths := dayNumber_month_le (y := k) (a := 1) (b := 12) (by omega) (by omega) (by omega)
    have := daysInMonth_bounds (y := k) (m := 12)
    omega

/-- A date lies in its month, and its month in its year. -/
theorem Date.Valid.bounds (h : d.Valid) :
    dayNumber ⟨d.year, 1, 1⟩ ≤ dayNumber ⟨d.year, d.month, 1⟩ ∧
    dayNumber ⟨d.year, d.month, 1⟩ ≤ dayNumber d ∧
    dayNumber d < dayNumber ⟨d.year, d.month, 1⟩ + daysInMonth d.year d.month ∧
    dayNumber ⟨d.year, d.month, 1⟩ + daysInMonth d.year d.month ≤ dayNumber ⟨d.year + 1, 1, 1⟩ := by
  obtain ⟨⟨hm, hm'⟩, hd, hd'⟩ := h
  have hday := dayNumber_day d
  have hyear := dayNumber_year_succ d.year
  refine ⟨dayNumber_month_le (by omega) hm hm', by omega, by omega, ?_⟩
  rcases (show d.month ≤ 11 ∨ d.month = 12 by omega) with h | h
  · rw [← dayNumber_month_succ hm h]
    have := dayNumber_month_le (y := d.year) (a := d.month + 1) (b := 12) (by omega) (by omega)
      (by omega)
    have := daysInMonth_bounds (y := d.year) (m := 12)
    omega
  · rw [h, hyear]

/-- The day of the year. -/
theorem Date.Valid.yearDay (h : d.Valid) : 0 ≤ dayNumber d - dayNumber ⟨d.year, 1, 1⟩ ∧
    dayNumber d - dayNumber ⟨d.year, 1, 1⟩ ≤ 365 := by
  obtain ⟨h1, h2, h3, h4⟩ := h.bounds
  have hlen := dayNumber_year_length d.year
  split at hlen <;> omega

/-- **Day numbers follow the calendar.** -/
theorem dayNumber_lt (hd : d.Valid) (he : e.Valid) (h : d < e) : dayNumber d < dayNumber e := by
  obtain ⟨-, -, hdm, hdy⟩ := hd.bounds
  obtain ⟨hey, hem, -, -⟩ := he.bounds
  rcases h with h | ⟨hy, h | ⟨hm, h⟩⟩
  · have := dayNumber_year_le (a := d.year + 1) (b := e.year) (by omega)
    omega
  · have hnext := dayNumber_month_succ (y := d.year) hd.month.1 (by have := he.month; omega)
    have hle := dayNumber_month_le (y := e.year) (a := d.month + 1) (b := e.month)
      (by have := hd.month; omega) (by omega) he.month.2
    rw [hy] at hdm hnext
    omega
  · have h1 := dayNumber_day d
    have h2 := dayNumber_day e
    rw [hy, hm] at h1
    omega

theorem dayNumber_le (hd : d.Valid) (he : e.Valid) (h : d ≤ e) : dayNumber d ≤ dayNumber e := by
  rcases h with h | rfl
  · exact Int.le_of_lt (dayNumber_lt hd he h)
  · exact Int.le_refl _

theorem Date.lt_trichotomy (d e : Date) : d < e ∨ d = e ∨ e < d := by
  obtain ⟨y, m, a⟩ := d
  obtain ⟨y', m', a'⟩ := e
  rw [Date.mk.injEq]
  show (y < y' ∨ y = y' ∧ (m < m' ∨ m = m' ∧ a < a')) ∨ (y = y' ∧ m = m' ∧ a = a') ∨
    (y' < y ∨ y' = y ∧ (m' < m ∨ m' = m ∧ a' < a))
  omega

theorem dayNumber_inj (hd : d.Valid) (he : e.Valid) (h : dayNumber d = dayNumber e) : d = e := by
  rcases d.lt_trichotomy e with hlt | heq | hlt
  · have := dayNumber_lt hd he hlt
    omega
  · exact heq
  · have := dayNumber_lt he hd hlt
    omega

theorem dayNumber_lt_iff (hd : d.Valid) (he : e.Valid) : dayNumber d < dayNumber e ↔ d < e := by
  refine ⟨fun h => ?_, dayNumber_lt hd he⟩
  rcases d.lt_trichotomy e with hlt | rfl | hlt
  · exact hlt
  · omega
  · have := dayNumber_lt he hd hlt
    omega

theorem dayNumber_le_iff (hd : d.Valid) (he : e.Valid) : d ≤ e ↔ dayNumber d ≤ dayNumber e := by
  refine ⟨dayNumber_le hd he, fun h => ?_⟩
  rcases d.lt_trichotomy e with hlt | heq | hlt
  · exact .inl hlt
  · exact .inr heq
  · have := dayNumber_lt he hd hlt
    omega

/-! ## Counting day by day -/

theorem Date.Valid.next (h : d.Valid) : d.next.Valid := by
  obtain ⟨hm, hd⟩ := h
  unfold Date.next
  split
  · next hday => exact ⟨hm, by simp only; omega⟩
  · have hfirst (y m : Int) : (1 : Int) ≤ 1 ∧ 1 ≤ daysInMonth y m := by
      have := daysInMonth_bounds (y := y) (m := m)
      omega
    split
    · next hmonth => exact ⟨by simp only; omega, hfirst _ _⟩
    · exact ⟨by simp only; omega, hfirst _ _⟩

/-- **The next date has the next day number.** -/
theorem dayNumber_next (h : d.Valid) : dayNumber d.next = dayNumber d + 1 := by
  obtain ⟨hm, hd⟩ := h
  have hday := dayNumber_day d
  unfold Date.next
  split
  · have hday' := dayNumber_day ⟨d.year, d.month, d.day + 1⟩
    simp only at hday'
    omega
  · -- the last day of its month
    have hlast : d.day = daysInMonth d.year d.month := by omega
    split
    · rw [dayNumber_month_succ hm.1 (by omega)]
      omega
    · have hdecember : d.month = 12 := by omega
      rw [hdecember] at hday hlast
      rw [dayNumber_year_succ]
      omega

theorem Date.Valid.iterate_next (h : d.Valid) (n : Nat) : (Date.next^[n] d).Valid := by
  induction n with
  | zero => exact h
  | succ n ih =>
    rw [Function.iterate_succ_apply']
    exact ih.next

theorem dayNumber_iterate_next (h : d.Valid) (n : Nat) :
    dayNumber (Date.next^[n] d) = dayNumber d + n := by
  induction n with
  | zero => exact (Int.add_zero _).symm
  | succ n ih =>
    rw [Function.iterate_succ_apply', dayNumber_next (h.iterate_next n), ih]
    omega

/-- **The difference of two day numbers is the number of days between the dates.** -/
theorem iterate_next_eq_iff (hd : d.Valid) (he : e.Valid) (n : Nat) :
    Date.next^[n] d = e ↔ (n : Int) = dayNumber e - dayNumber d := by
  have hcount := dayNumber_iterate_next hd n
  constructor
  · rintro rfl
    omega
  · intro h
    exact dayNumber_inj (hd.iterate_next n) he (by omega)

/-! ## Back to the date -/

/-- The months since March have the lengths that the days before them say, but for February. -/
theorem daysInMonth_sinceMarch (h : 0 ≤ m) (h' : m ≤ 10) :
    daysInMonth y (m + 3 - 12 * (m / 10)) = (153 * (m + 1) + 2) / 5 - (153 * m + 2) / 5 := by
  unfold daysInMonth
  interval_cases m <;> rfl

theorem dateOf_valid (n : Int) : (dateOf n).Valid := by
  refine ⟨dateOf_month n, (dateOf_day n).1, ?_⟩
  obtain ⟨y, m, e, h0, h11, h1, h2, h3, -, hd⟩ := dateOf_eq n
  have hl := leapDays_succ (y + 1)
  rw [Int.add_sub_cancel] at hl
  rw [hd]
  rcases (show m ≤ 10 ∨ m = 11 by omega) with h10 | rfl
  · show e - (153 * m + 2) / 5 + 1 ≤ daysInMonth _ _
    rw [daysInMonth_sinceMarch h0 h10]
    omega
  · -- February ends the year that starts in March
    show e - 337 + 1 ≤ if isLeap (y + 1) then 29 else 28
    split at hl <;> rename_i hleap
    · rw [if_pos hleap]
      omega
    · rw [if_neg hleap]
      omega

theorem dateOf_dayNumber (h : d.Valid) : dateOf (dayNumber d) = d :=
  dayNumber_inj (dateOf_valid _) h (dayNumber_dateOf _)

/-- Later days have later dates. -/
theorem dateOf_lt_iff (n k : Int) : dateOf n < dateOf k ↔ n < k := by
  rw [← dayNumber_lt_iff (dateOf_valid n) (dateOf_valid k), dayNumber_dateOf, dayNumber_dateOf]

theorem dateOf_inj {n k : Int} : dateOf n = dateOf k ↔ n = k := by
  refine ⟨fun h => ?_, fun h => by rw [h]⟩
  rw [← dayNumber_dateOf n, h, dayNumber_dateOf]

end Calendar
