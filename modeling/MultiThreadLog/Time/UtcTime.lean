import MultiThreadLog.Time.Date
import MultiThreadLog.Time.Tm

/-!
# `TimeZone::toUtcTime` and `fromUtcTime`

The conversions between seconds and UTC fields that `TimeZone.cc` makes with `Date`, in the
arithmetic of `int`. In the range of `Date` they are those of the C library
(`toUtcTime_eq`, `fromUtcTime_eq`).
-/

namespace MultiThreadLog

open Bytes CInt Calendar

def kSecondsPerDay : Int := 24 * 60 * 60

def fillHMS (seconds : Nat) (utc : Tm) : Tm :=
  let utc := { utc with sec := seconds % 60 }
  let minutes := seconds / 60
  let utc := { utc with min := minutes % 60 }
  { utc with hour := minutes / 60 }

namespace TimeZone

/-- All bytes of the `struct tm` are zero, but for `tm_zone`. -/
def zeroTm : Tm where
  sec := 0
  min := 0
  hour := 0
  mday := 0
  mon := 0
  year := 0
  wday := 0
  yday := 0
  isdst := 0
  gmtoff := 0
  zone := ascii "GMT"

/-- The first lines of `toUtcTime`: the second of the day, and the day. -/
def splitDay (secondsSinceEpoch : Int) : Option (Int × Int) := do
  let seconds := ofLong (secondsSinceEpoch.tmod kSecondsPerDay)
  let days := ofLong (secondsSinceEpoch.tdiv kSecondsPerDay)
  if seconds < 0 then return (← add seconds kSecondsPerDay, ← sub days 1)
  return (seconds, days)

def toUtcTime (secondsSinceEpoch : Int) (yday : Bool) : Option Tm := do
  let (seconds, days) ← splitDay secondsSinceEpoch
  -- `fillHMS` takes an `unsigned`
  let utc := fillHMS (seconds % 2 ^ 32).toNat zeroTm
  let date : Date := ⟨← add days Date.kJulianDayOf1970_01_01⟩
  let ymd ← date.yearMonthDay
  let utc := { utc with
    year := ← sub ymd.year 1900
    mon := ← sub ymd.month 1
    mday := ymd.day
    wday := ← date.weekDay }
  if yday then
    let startOfYear ← Date.ofYearMonthDay ymd.year 1 1
    return { utc with yday := ← sub date.julianDayNumber startOfYear.julianDayNumber }
  else return utc

/-- `fromUtcTime(year, month, day, hour, minute, seconds)`. The last two operations are of type
`time_t`, where they cannot overflow. -/
def fromUtcFields (year month day hour minute seconds : Int) : Option Int := do
  let date ← Date.ofYearMonthDay year month day
  let secondsInDay ← add (← add (← mul hour 3600) (← mul minute 60)) seconds
  let days ← sub date.julianDayNumber Date.kJulianDayOf1970_01_01
  return days * kSecondsPerDay + secondsInDay

def fromUtcTime (utc : Tm) : Option Int := do
  fromUtcFields (← add utc.year 1900) (← add utc.mon 1) utc.mday utc.hour utc.min utc.sec

/-! ## What the conversions compute -/

theorem fillHMS_eq {s : Int} (h : 0 ≤ s) (h' : s < 86400) :
    fillHMS (s % 2 ^ 32).toNat zeroTm =
      { zeroTm with sec := s % 60, min := s / 60 % 60, hour := s / 3600 } := by
  obtain ⟨n, rfl⟩ := Int.eq_ofNat_of_zero_le h
  have hn : ((n : Int) % 2 ^ 32).toNat = n := by omega
  have hmin : ((n / 60 : Nat) : Int) % 60 = (n : Int) / 60 % 60 := by omega
  have hhour : ((n / 60 : Nat) : Int) / 60 = (n : Int) / 3600 := by omega
  simp only [fillHMS, hn, hmin, hhour]

/-- The truncating division and its repair. -/
theorem splitDay_eq {t : Int} (h : -2147483647 ≤ t / 86400) (h' : t / 86400 ≤ 2147483646) :
    splitDay t = some (t % 86400, t / 86400) := by
  have hsum := Int.mul_tdiv_add_tmod t 86400
  have hlt := Int.tmod_lt_of_pos t (show (0 : Int) < 86400 by decide)
  have hgt := Int.lt_tmod_of_pos t (show (0 : Int) < 86400 by decide)
  have hk : kSecondsPerDay = 86400 := rfl
  simp only [splitDay, hk]
  rw [ofLong_eq (by omega) (by omega), ofLong_eq (by omega) (by omega)]
  split
  · have hm : t.tmod 86400 + 86400 = t % 86400 := by omega
    have hd : t.tdiv 86400 - 1 = t / 86400 := by omega
    rw [add_bind (by omega) (by omega), sub_bind (by omega) (by omega), hm, hd]
    rfl
  · have hm : t.tmod 86400 = t % 86400 := by omega
    have hd : t.tdiv 86400 = t / 86400 := by omega
    rw [hm, hd]
    rfl

theorem weekDay_eq {j : Int} (h : 0 ≤ j) (h' : j ≤ 536838867) :
    Date.weekDay ⟨j⟩ = some ((j + 1) % 7) := by
  show (add j 1 >>= fun x => mod x 7) = _
  rw [add_bind (by omega) (by omega)]
  exact mod_eq (by omega) (by omega) (by decide)

/-- Julian day 1 is 25 November -4713. -/
theorem dateOf_year_bounds {n : Int} (h : 1 ≤ n + 2440588) (h' : n + 2440588 ≤ 536838867) :
    -4713 ≤ (dateOf n).year ∧ (dateOf n).year ≤ 1465102 := by
  have hv := dateOf_valid n
  have hfirst : Calendar.Date.Valid ⟨-4713, 11, 25⟩ := ⟨by decide, by decide⟩
  have hlow : ⟨-4713, 11, 25⟩ ≤ dateOf n := by
    rw [dayNumber_le_iff hfirst hv, dayNumber_dateOf,
      show dayNumber ⟨-4713, 11, 25⟩ = -2440587 by decide]
    omega
  have hhigh := ((julianRange_iff hv).mp (by rw [dayNumber_dateOf]; exact ⟨by omega, h'⟩)).2
  constructor
  · rcases hlow with (h | ⟨h, -⟩) | h
    · exact Int.le_of_lt h
    · exact Int.le_of_eq h
    · rw [← h]
  · rcases hhigh with (h | ⟨h, -⟩) | h
    · exact Int.le_of_lt h
    · exact Int.le_of_eq h
    · rw [h]

theorem toUtcTime_eq {t : Int} (h : 1 ≤ t / 86400 + 2440588)
    (h' : t / 86400 + 2440588 ≤ 536838867) (yday : Bool) :
    toUtcTime t yday = some { gmtime t with yday := if yday then (gmtime t).yday else 0 } := by
  obtain ⟨n, hn⟩ : ∃ n, n = t / 86400 := ⟨_, rfl⟩
  have hs : 0 ≤ t % 86400 ∧ t % 86400 < 86400 := by omega
  have hsplit := splitDay_eq (t := t) (by omega) (by omega)
  rw [← hn] at h h' hsplit
  have hymd : Date.yearMonthDay ⟨n + 2440588⟩ = some (dateOf n) := by
    rw [Date.yearMonthDay, getYearMonthDay_eq ⟨by omega, h'⟩, Int.add_sub_cancel]
  have hwday := weekDay_eq (j := n + 2440588) (by omega) h'
  have hmonth := dateOf_month n
  have hyear := dateOf_year_bounds h h'
  have hstart : Date.ofYearMonthDay (dateOf n).year 1 1 =
      some ⟨dayNumber ⟨(dateOf n).year, 1, 1⟩ + 2440588⟩ := by
    rw [Date.ofYearMonthDay, getJulianDayNumber_eq (by omega) (by omega) (by omega) (by omega)]
    rfl
  rw [toUtcTime, hsplit, Option.bind_eq_bind, Option.bind_some]
  simp only [fillHMS_eq hs.1 hs.2, Date.kJulianDay_eq]
  rw [add_bind (by omega) (by omega), hymd, Option.bind_eq_bind, Option.bind_some]
  rw [sub_bind (by omega) (by omega), sub_bind (by omega) (by omega), hwday,
    Option.bind_eq_bind, Option.bind_some]
  have hwday : (n + 2440588 + 1) % 7 = (n + 4) % 7 := by omega
  have hdays := (dateOf_valid n).yearDay
  rw [dayNumber_dateOf] at hdays
  have hyday : n + 2440588 - (dayNumber ⟨(dateOf n).year, 1, 1⟩ + 2440588) =
      n - dayNumber ⟨(dateOf n).year, 1, 1⟩ := by omega
  rw [hwday]
  cases yday with
  | false =>
    subst hn
    rfl
  | true =>
    rw [if_pos rfl, hstart, Option.bind_eq_bind, Option.bind_some]
    rw [sub_eq (by simp only; omega) (by simp only; omega), Option.bind_some, hyday]
    subst hn
    rfl

theorem fromUtcFields_eq {d : Calendar.Date} {hour min sec : Int} (hd : d.Valid)
    (hr : JulianRange (dayNumber d + 2440588)) (hh : 0 ≤ hour ∧ hour < 24)
    (hm : 0 ≤ min ∧ min < 60) (hs : 0 ≤ sec ∧ sec < 60) :
    fromUtcFields d.year d.month d.day hour min sec =
      some (dayNumber d * 86400 + (hour * 3600 + min * 60 + sec)) := by
  have hdate : Date.ofYearMonthDay d.year d.month d.day = some ⟨dayNumber d + 2440588⟩ := by
    rw [Date.ofYearMonthDay, getJulianDayNumber_of_valid hd hr]
    rfl
  obtain ⟨hr1, hr2⟩ := hr
  rw [fromUtcFields, hdate, Option.bind_eq_bind, Option.bind_some, mul_bind (by omega) (by omega),
    mul_bind (by omega) (by omega), add_bind (by omega) (by omega), add_bind (by omega) (by omega),
    Date.kJulianDay_eq, sub_bind (by simp only; omega) (by simp only; omega), Int.add_sub_cancel]
  rfl

theorem fromUtcTime_gmtime {t : Int} (h : 1 ≤ t / 86400 + 2440588)
    (h' : t / 86400 + 2440588 ≤ 536838867) : fromUtcTime (gmtime t) = some t := by
  have hv := dateOf_valid (t / 86400)
  have hyear := dateOf_year_bounds h h'
  have hmonth := dateOf_month (t / 86400)
  have hr : JulianRange (dayNumber (dateOf (t / 86400)) + 2440588) := by
    rw [dayNumber_dateOf]
    exact ⟨by omega, h'⟩
  have hsum : t / 86400 * 86400 + (t % 86400 / 3600 * 3600 + t % 86400 / 60 % 60 * 60 +
      t % 86400 % 60) = t := by omega
  have hfields := fromUtcFields_eq hv hr
    (show 0 ≤ t % 86400 / 3600 ∧ t % 86400 / 3600 < 24 by omega)
    (show 0 ≤ t % 86400 / 60 % 60 ∧ t % 86400 / 60 % 60 < 60 by omega)
    (show 0 ≤ t % 86400 % 60 ∧ t % 86400 % 60 < 60 by omega)
  rw [dayNumber_dateOf, hsum] at hfields
  simp only [fromUtcTime, gmtime]
  rw [add_bind (by omega) (by omega), add_bind (by omega) (by omega), Int.sub_add_cancel,
    Int.sub_add_cancel, hfields]

/-- **Seconds and UTC fields determine each other.** For every second whose Julian day number is in
the range, `toUtcTime` overflows nowhere, its fields are those of the calendar, and `fromUtcTime`
gives the second back; for every valid date in that range and time of day `toUtcTime` gives the
fields back. -/
theorem utcTime_inverse :
    (∀ t : Int, 1 ≤ t / 86400 + 2440588 → t / 86400 + 2440588 ≤ 536838867 →
      ∃ tm, toUtcTime t true = some tm ∧
        (0 ≤ tm.sec ∧ tm.sec ≤ 59) ∧ (0 ≤ tm.min ∧ tm.min ≤ 59) ∧
        (0 ≤ tm.hour ∧ tm.hour ≤ 23) ∧ (0 ≤ tm.mon ∧ tm.mon ≤ 11) ∧
        (1 ≤ tm.mday ∧ tm.mday ≤ daysInMonth (tm.year + 1900) (tm.mon + 1)) ∧
        tm.wday = (t / 86400 + 4) % 7 ∧
        tm.yday = t / 86400 - dayNumber ⟨tm.year + 1900, 1, 1⟩ ∧ (0 ≤ tm.yday ∧ tm.yday ≤ 365) ∧
        fromUtcTime tm = some t) ∧
    ∀ (d : Calendar.Date) (hour min sec : Int), d.Valid → 1 ≤ dayNumber d + 2440588 →
      dayNumber d + 2440588 ≤ 536838867 → 0 ≤ hour ∧ hour < 24 → 0 ≤ min ∧ min < 60 →
      0 ≤ sec ∧ sec < 60 →
      ∃ t, fromUtcFields d.year d.month d.day hour min sec = some t ∧
        ∀ yday, ∃ tm, toUtcTime t yday = some tm ∧ tm.year + 1900 = d.year ∧
          tm.mon + 1 = d.month ∧ tm.mday = d.day ∧ tm.hour = hour ∧ tm.min = min ∧
          tm.sec = sec := by
  refine ⟨fun t h h' => ?_, fun d hour min sec hd h h' hh hm hs => ?_⟩
  · have hv := dateOf_valid (t / 86400)
    obtain ⟨⟨hm1, hm2⟩, hd1, hd2⟩ := hv
    have hday := (dateOf_valid (t / 86400)).yearDay
    rw [dayNumber_dateOf] at hday
    refine ⟨gmtime t, toUtcTime_eq h h' true, ?_, ?_, ?_, ?_, ?_, rfl, ?_, hday,
      fromUtcTime_gmtime h h'⟩
    · simp only [gmtime]
      omega
    · simp only [gmtime]
      omega
    · simp only [gmtime]
      omega
    · simp only [gmtime]
      omega
    · simp only [gmtime, Int.sub_add_cancel]
      exact ⟨hd1, hd2⟩
    · simp only [gmtime, Int.sub_add_cancel]
  · obtain ⟨s, hs0⟩ : ∃ s, s = hour * 3600 + min * 60 + sec := ⟨_, rfl⟩
    have hdays : (dayNumber d * 86400 + s) / 86400 = dayNumber d := by omega
    have hrest : (dayNumber d * 86400 + s) % 86400 = s := by omega
    refine ⟨dayNumber d * 86400 + s, ?_, fun yday => ⟨_, toUtcTime_eq ?_ ?_ yday, ?_⟩⟩
    · rw [fromUtcFields_eq hd ⟨by omega, h'⟩ hh hm hs, hs0]
    · rw [hdays]
      exact h
    · rw [hdays]
      exact h'
    · simp only [gmtime, hdays, hrest, dateOf_dayNumber hd]
      exact ⟨by omega, by omega, trivial, by omega, by omega, by omega⟩

end TimeZone

end MultiThreadLog
