import MultiThreadLog.Lib.Calendar
import MultiThreadLog.Lib.Numeral

/-!
# `struct tm`, `gmtime_r`, `timegm` and the date texts

`gmtime` is the exact proleptic Gregorian UTC conversion of the C library, `timegm` the conversion
back (`timegm_gmtime`). `dateTimeText` is the format `%4d%02d%02d %02d:%02d:%02d` that the log
prefix and `Timestamp::toFormattedString` share, `fileTimeText` the `strftime` format
`%Y%m%d-%H%M%S.` of the log file names. In the years 1000 to 9999 both have a fixed width;
`fileTimeText` then determines the second (`fileTimeText_inj`).
-/

namespace MultiThreadLog

open Bytes Numeral Calendar

structure Tm where
  sec : Int
  min : Int
  hour : Int
  mday : Int
  mon : Int
  year : Int
  wday : Int
  yday : Int
  isdst : Int
  gmtoff : Int
  zone : List UInt8
  deriving DecidableEq

/-- `gmtime_r`. -/
def gmtime (t : Int) : Tm :=
  let d := dateOf (t / 86400)
  let s := t % 86400
  { sec := s % 60
    min := s / 60 % 60
    hour := s / 3600
    mday := d.day
    mon := d.month - 1
    year := d.year - 1900
    wday := (t / 86400 + 4) % 7
    yday := t / 86400 - dayNumber ⟨d.year, 1, 1⟩
    isdst := 0
    gmtoff := 0
    zone := ascii "GMT" }

/-- `timegm`; the fields may lie outside their ranges. -/
def timegm (tm : Tm) : Int :=
  (dayNumber ⟨tm.year + 1900 + tm.mon / 12, tm.mon % 12 + 1, 1⟩ + (tm.mday - 1)) * 86400 +
    tm.hour * 3600 + tm.min * 60 + tm.sec

def dateTimeText (tm : Tm) : List UInt8 :=
  blankField 4 (tm.year + 1900) ++ zeroField 2 (tm.mon + 1) ++ zeroField 2 tm.mday ++ ascii " " ++
    zeroField 2 tm.hour ++ ascii ":" ++ zeroField 2 tm.min ++ ascii ":" ++ zeroField 2 tm.sec

def fileTimeText (tm : Tm) : List UInt8 :=
  decimal (tm.year + 1900) ++ zeroField 2 (tm.mon + 1) ++ zeroField 2 tm.mday ++ ascii "-" ++
    zeroField 2 tm.hour ++ zeroField 2 tm.min ++ zeroField 2 tm.sec ++ ascii "."

/-- The fields lie in their ranges and the year has four digits. -/
structure Tm.InRange (tm : Tm) : Prop where
  year : 1000 ≤ tm.year + 1900 ∧ tm.year + 1900 < 10000
  mon : 0 ≤ tm.mon ∧ tm.mon < 12
  mday : 1 ≤ tm.mday ∧ tm.mday < 32
  hour : 0 ≤ tm.hour ∧ tm.hour < 24
  min : 0 ≤ tm.min ∧ tm.min < 60
  sec : 0 ≤ tm.sec ∧ tm.sec < 60

/-- The seconds of the years 1000 to 9999. -/
def FourDigitYear (t : Int) : Prop := -354285 * 86400 ≤ t ∧ t < 2932897 * 86400

theorem gmtime_inRange {t : Int} (h : FourDigitYear t) : (gmtime t).InRange := by
  unfold FourDigitYear at h
  have hy := dateOf_year (n := t / 86400) (by omega) (by omega)
  have hm := dateOf_month (t / 86400)
  have hd := dateOf_day (t / 86400)
  constructor <;> simp only [gmtime] <;> omega

/-- The date and the time of day determine the second. -/
theorem gmtime_inj {t t' : Int} (hyear : (gmtime t).year = (gmtime t').year)
    (hmon : (gmtime t).mon = (gmtime t').mon) (hmday : (gmtime t).mday = (gmtime t').mday)
    (hhour : (gmtime t).hour = (gmtime t').hour) (hmin : (gmtime t).min = (gmtime t').min)
    (hsec : (gmtime t).sec = (gmtime t').sec) : t = t' := by
  simp only [gmtime] at hyear hmon hmday hhour hmin hsec
  have hdate : dateOf (t / 86400) = dateOf (t' / 86400) := by
    rw [Calendar.Date.mk.injEq]
    omega
  have hday := congrArg dayNumber hdate
  rw [dayNumber_dateOf, dayNumber_dateOf] at hday
  omega

theorem timegm_gmtime (t : Int) : timegm (gmtime t) = t := by
  have hm := dateOf_month (t / 86400)
  have hd := dayNumber_day (dateOf (t / 86400))
  have hyear : (dateOf (t / 86400)).year - 1900 + 1900 + ((dateOf (t / 86400)).month - 1) / 12 =
      (dateOf (t / 86400)).year := by omega
  have hmonth : ((dateOf (t / 86400)).month - 1) % 12 + 1 = (dateOf (t / 86400)).month := by omega
  rw [dayNumber_dateOf] at hd
  simp only [timegm, gmtime, hyear, hmonth, ← hd]
  omega

theorem two_digits {v : Int} (h0 : 0 ≤ v) (h1 : v < 100) : (zeroField 2 v).length = 2 :=
  zeroField_length (by omega) h0 (by omega)

theorem two_digits_eq {v v' : Int} (h0 : 0 ≤ v) (h1 : v < 100) (h0' : 0 ≤ v') (h1' : v' < 100) :
    (zeroField 2 v).length = (zeroField 2 v').length := by
  rw [two_digits h0 h1, two_digits h0' h1']

theorem four_digits {v : Int} (h0 : 1000 ≤ v) (h1 : v < 10000) : (decimal v).length = 4 :=
  decimal_length (k := 3) (by omega) (by omega) (by omega)

theorem dateTimeText_length {tm : Tm} (h : tm.InRange) : (dateTimeText tm).length = 17 := by
  obtain ⟨hy, hm, hd, hh, hmi, hs⟩ := h
  have hyear : (blankField 4 (tm.year + 1900)).length = 4 :=
    padLeft_length (Nat.le_of_eq (decimal_length (k := 3) (by omega) (by omega) (by omega)))
  have hmon : (zeroField 2 (tm.mon + 1)).length = 2 := two_digits (by omega) (by omega)
  have hmday : (zeroField 2 tm.mday).length = 2 := two_digits (by omega) (by omega)
  have hhour : (zeroField 2 tm.hour).length = 2 := two_digits hh.1 (by omega)
  have hmin : (zeroField 2 tm.min).length = 2 := two_digits hmi.1 (by omega)
  have hsec : (zeroField 2 tm.sec).length = 2 := two_digits hs.1 (by omega)
  simp only [dateTimeText, List.length_append, hyear, hmon, hmday, hhour, hmin, hsec]
  decide

theorem ne_zero_of_mem_dateTimeText {tm : Tm} {b : UInt8} (h : b ∈ dateTimeText tm) : b ≠ 0 := by
  have lit : ∀ x ∈ ascii " " ++ ascii ":", x ≠ 0 := ne_zero_of_all rfl
  simp only [dateTimeText, List.mem_append] at h
  rcases h with (((((((h | h) | h) | h) | h) | h) | h) | h) | h
  · exact ne_zero_of_mem_padLeft (by decide) (fun _ hx => ne_zero_of_mem_decimal hx) h
  · exact ne_zero_of_mem_zeroField h
  · exact ne_zero_of_mem_zeroField h
  · exact lit b (List.mem_append_left _ h)
  · exact ne_zero_of_mem_zeroField h
  · exact lit b (List.mem_append_right _ h)
  · exact ne_zero_of_mem_zeroField h
  · exact lit b (List.mem_append_right _ h)
  · exact ne_zero_of_mem_zeroField h

/-- The texts of the fields determine the second. -/
theorem gmtime_inj_of_texts {t t' : Int} (h : FourDigitYear t) (h' : FourDigitYear t')
    (ey : decimal ((gmtime t).year + 1900) = decimal ((gmtime t').year + 1900))
    (em : zeroField 2 ((gmtime t).mon + 1) = zeroField 2 ((gmtime t').mon + 1))
    (ed : zeroField 2 (gmtime t).mday = zeroField 2 (gmtime t').mday)
    (eh : zeroField 2 (gmtime t).hour = zeroField 2 (gmtime t').hour)
    (emi : zeroField 2 (gmtime t).min = zeroField 2 (gmtime t').min)
    (es : zeroField 2 (gmtime t).sec = zeroField 2 (gmtime t').sec) : t = t' := by
  obtain ⟨hy, hm, hd, hh, hmi, hs⟩ := gmtime_inRange h
  obtain ⟨hy', hm', hd', hh', hmi', hs'⟩ := gmtime_inRange h'
  have := decimal_inj (by omega) (by omega) ey
  have := zeroField_inj (by omega) (by omega) em
  exact gmtime_inj (by omega) (by omega) (zeroField_inj (by omega) (by omega) ed)
    (zeroField_inj (by omega) (by omega) eh) (zeroField_inj (by omega) (by omega) emi)
    (zeroField_inj (by omega) (by omega) es)

/-- **The file name's time determines the second** in the years 1000 to 9999. -/
theorem fileTimeText_inj {t t' : Int} (h : FourDigitYear t) (h' : FourDigitYear t')
    (e : fileTimeText (gmtime t) = fileTimeText (gmtime t')) : t = t' := by
  obtain ⟨hy, hm, hd, hh, hmi, hs⟩ := gmtime_inRange h
  obtain ⟨hy', hm', hd', hh', hmi', hs'⟩ := gmtime_inRange h'
  unfold fileTimeText at e
  -- peel the fields from the right, where every width is known
  obtain ⟨e, -⟩ := List.append_inj' e rfl
  obtain ⟨e, es⟩ := List.append_inj' e (two_digits_eq hs.1 (by omega) hs'.1 (by omega))
  obtain ⟨e, emi⟩ := List.append_inj' e (two_digits_eq hmi.1 (by omega) hmi'.1 (by omega))
  obtain ⟨e, eh⟩ := List.append_inj' e (two_digits_eq hh.1 (by omega) hh'.1 (by omega))
  obtain ⟨e, -⟩ := List.append_inj' e rfl
  obtain ⟨e, ed⟩ := List.append_inj' e (two_digits_eq (by omega) (by omega) (by omega) (by omega))
  obtain ⟨ey, em⟩ := List.append_inj' e (two_digits_eq (by omega) (by omega) (by omega) (by omega))
  exact gmtime_inj_of_texts h h' ey em ed eh emi es

/-- So does the time text of a record. -/
theorem dateTimeText_inj {t t' : Int} (h : FourDigitYear t) (h' : FourDigitYear t')
    (e : dateTimeText (gmtime t) = dateTimeText (gmtime t')) : t = t' := by
  obtain ⟨hy, hm, hd, hh, hmi, hs⟩ := gmtime_inRange h
  obtain ⟨hy', hm', hd', hh', hmi', hs'⟩ := gmtime_inRange h'
  have full : ∀ {v : Int}, 1000 ≤ v → v < 10000 → blankField 4 v = decimal v := fun h0 h1 => by
    simp [blankField, padLeft, four_digits h0 h1]
  unfold dateTimeText at e
  obtain ⟨e, es⟩ := List.append_inj' e (two_digits_eq hs.1 (by omega) hs'.1 (by omega))
  obtain ⟨e, -⟩ := List.append_inj' e rfl
  obtain ⟨e, emi⟩ := List.append_inj' e (two_digits_eq hmi.1 (by omega) hmi'.1 (by omega))
  obtain ⟨e, -⟩ := List.append_inj' e rfl
  obtain ⟨e, eh⟩ := List.append_inj' e (two_digits_eq hh.1 (by omega) hh'.1 (by omega))
  obtain ⟨e, -⟩ := List.append_inj' e rfl
  obtain ⟨e, ed⟩ := List.append_inj' e (two_digits_eq (by omega) (by omega) (by omega) (by omega))
  obtain ⟨ey, em⟩ := List.append_inj' e (two_digits_eq (by omega) (by omega) (by omega) (by omega))
  rw [full hy.1 hy.2, full hy'.1 hy'.2] at ey
  exact gmtime_inj_of_texts h h' ey em ed eh emi es

end MultiThreadLog
