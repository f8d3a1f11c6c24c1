import MultiThreadLog.Lib.FieldOrder
import MultiThreadLog.Time.Timestamp

/-!
# Texts of times in the order of time

In the years 1000 to 9999 every field of `dateTimeText` has its full width, so the text orders
seconds by year, month, day, hour, minute and second. That is their order in time, because the date
of a later day is a later date (`gmtime_lt_iff`). `toFormattedString` puts the microseconds behind
it, and its texts are ordered as the timestamps from the epoch to the end of year 9999.
-/

namespace MultiThreadLog

open Bytes Numeral Calendar

/-- **The order of seconds**, field by field. -/
theorem gmtime_lt_iff (s s' : Int) : s < s' ↔
    (gmtime s).year < (gmtime s').year ∨ (gmtime s).year = (gmtime s').year ∧
      ((gmtime s).mon < (gmtime s').mon ∨ (gmtime s).mon = (gmtime s').mon ∧
        ((gmtime s).mday < (gmtime s').mday ∨ (gmtime s).mday = (gmtime s').mday ∧
          ((gmtime s).hour < (gmtime s').hour ∨ (gmtime s).hour = (gmtime s').hour ∧
            ((gmtime s).min < (gmtime s').min ∨ (gmtime s).min = (gmtime s').min ∧
              (gmtime s).sec < (gmtime s').sec)))) := by
  have hlt := dateOf_lt_iff (s / 86400) (s' / 86400)
  have heq := dateOf_inj (n := s / 86400) (k := s' / 86400)
  have hday : s < s' ↔ s / 86400 < s' / 86400 ∨ s / 86400 = s' / 86400 ∧
      (s % 86400 / 3600 < s' % 86400 / 3600 ∨ s % 86400 / 3600 = s' % 86400 / 3600 ∧
        (s % 86400 / 60 % 60 < s' % 86400 / 60 % 60 ∨
          s % 86400 / 60 % 60 = s' % 86400 / 60 % 60 ∧ s % 86400 % 60 < s' % 86400 % 60)) := by
    omega
  rw [hday, ← hlt, ← heq, Calendar.Date.mk.injEq]
  simp only [gmtime]
  show (_ ∨ _ ∧ (_ ∨ _ ∧ _)) ∨ _ ↔ _
  omega

theorem twoDigits_append_lt_iff {v v' : Int} {t t' : List UInt8} (h : 0 ≤ v ∧ v < 100)
    (h' : 0 ≤ v' ∧ v' < 100) :
    zeroField 2 v ++ t < zeroField 2 v' ++ t' ↔ v < v' ∨ v = v' ∧ t < t' :=
  zeroField_append_lt_iff (by omega) ⟨h.1, by omega⟩ ⟨h'.1, by omega⟩

/-- A year of four digits needs no blanks. -/
theorem blankField_eq_zeroField {v : Int} (h : 1000 ≤ v ∧ v < 10000) :
    blankField 4 v = zeroField 4 v := by
  have hlen := four_digits h.1 h.2
  rw [decimal_of_nonneg (by omega)] at hlen
  rw [blankField, decimal_of_nonneg (by omega), zeroField_of_nonneg (by omega), padLeft, padLeft,
    hlen]
  rfl

/-- **The text of a second**, whatever follows. -/
theorem dateTimeText_append_lt_iff {s s' : Int} (h : FourDigitYear s) (h' : FourDigitYear s')
    (u u' : List UInt8) :
    dateTimeText (gmtime s) ++ u < dateTimeText (gmtime s') ++ u' ↔ s < s' ∨ s = s' ∧ u < u' := by
  obtain ⟨hy, hm, hd, hh, hmi, hs⟩ := gmtime_inRange h
  obtain ⟨hy', hm', hd', hh', hmi', hs'⟩ := gmtime_inRange h'
  have hinj : s = s' ↔ (gmtime s).year = (gmtime s').year ∧ (gmtime s).mon = (gmtime s').mon ∧
      (gmtime s).mday = (gmtime s').mday ∧ (gmtime s).hour = (gmtime s').hour ∧
      (gmtime s).min = (gmtime s').min ∧ (gmtime s).sec = (gmtime s').sec :=
    ⟨fun e => by simp [e], fun ⟨e1, e2, e3, e4, e5, e6⟩ => gmtime_inj e1 e2 e3 e4 e5 e6⟩
  unfold dateTimeText
  simp only [List.append_assoc]
  rw [blankField_eq_zeroField hy, blankField_eq_zeroField hy',
    zeroField_append_lt_iff (by omega) ⟨by omega, by omega⟩ ⟨by omega, by omega⟩,
    twoDigits_append_lt_iff (by omega) (by omega), twoDigits_append_lt_iff (by omega) (by omega),
    literal_append_lt_iff, twoDigits_append_lt_iff (by omega) (by omega),
    literal_append_lt_iff, twoDigits_append_lt_iff (by omega) (by omega),
    literal_append_lt_iff, twoDigits_append_lt_iff (by omega) (by omega),
    gmtime_lt_iff s s', hinj]
  by_cases hu : u < u'
  · simp only [hu, and_true]
    omega
  · simp only [hu, and_false, or_false]
    omega

namespace Timestamp

/-- From the epoch to the end of year 9999. -/
def InYears (t : Timestamp) : Prop :=
  0 ≤ t.microSecondsSinceEpoch ∧ t.microSecondsSinceEpoch < 253402300800 * 1000000

variable {t t' : Timestamp}

theorem InYears.fourDigitYear (h : t.InYears) : FourDigitYear t.seconds := by
  have hk : kMicroSecondsPerSecond = 1000000 := rfl
  obtain ⟨h0, h1⟩ := h
  rw [FourDigitYear, seconds, Int.tdiv_eq_ediv_of_nonneg h0, hk]
  omega

theorem InYears.fits (h : t.InYears) : Fits 6 t.microseconds := microseconds_of_nonneg h.1

/-- The buffer takes the whole text. -/
theorem InYears.text_eq (h : t.InYears) : t.toFormattedString true =
    dateTimeText (gmtime t.seconds) ++ (ascii "." ++ zeroField 6 t.microseconds) ∧
    (t.toFormattedString true).length = 24 := by
  have h17 := dateTimeText_length (gmtime_inRange h.fourDigitYear)
  have h6 : (zeroField 6 t.microseconds).length = 6 := zeroField_length (by omega) h.fits.1 h.fits.2
  have hdot : (ascii ".").length = 1 := by decide
  have hlen : (dateTimeText (gmtime t.seconds) ++
      (ascii "." ++ zeroField 6 t.microseconds)).length = 24 := by
    rw [List.length_append, List.length_append, h17, h6, hdot]
  rw [toFormattedString, if_pos rfl, List.append_assoc, List.take_of_length_le (by omega)]
  exact ⟨rfl, hlen⟩

theorem InYears.text_lt_iff (h : t.InYears) (h' : t'.InYears) :
    t.toFormattedString true < t'.toFormattedString true ↔ t.lt t' = true := by
  have hk : kMicroSecondsPerSecond = 1000000 := rfl
  rw [h.text_eq.1, h'.text_eq.1, dateTimeText_append_lt_iff h.fourDigitYear h'.fourDigitYear,
    literal_append_lt_iff, zeroField_lt_iff (by omega) h.fits h'.fits, lt, decide_eq_true_eq,
    seconds, seconds, microseconds, microseconds, Int.tdiv_eq_ediv_of_nonneg h.1,
    Int.tdiv_eq_ediv_of_nonneg h'.1, Int.tmod_eq_emod_of_nonneg h.1,
    Int.tmod_eq_emod_of_nonneg h'.1, hk]
  omega

theorem InYears.text_eq_iff (h : t.InYears) (h' : t'.InYears) :
    t.toFormattedString true = t'.toFormattedString true ↔ t = t' := by
  refine ⟨fun e => ?_, fun e => by rw [e]⟩
  have hlt := h.text_lt_iff h'
  have hgt := h'.text_lt_iff h
  rw [e] at hlt hgt
  simp only [List.lt_irrefl, false_iff, lt, decide_eq_true_eq] at hlt hgt
  obtain ⟨v⟩ := t
  obtain ⟨v'⟩ := t'
  rw [Timestamp.mk.injEq]
  simp only at hlt hgt
  omega

/-- **The texts of timestamps**, with microseconds, from the epoch to the end of year 9999: all of
one length, ordered as the timestamps, and different for different ones. So timestamps are sorted
exactly when their texts are. -/
theorem toFormattedString_order :
    (∀ t t' : Timestamp, t.InYears → t'.InYears →
      (t.toFormattedString true).length = (t'.toFormattedString true).length ∧
      (t.toFormattedString true < t'.toFormattedString true ↔ t.lt t' = true) ∧
      (t.toFormattedString true = t'.toFormattedString true ↔ t = t')) ∧
    ∀ ts : List Timestamp, (∀ t ∈ ts, t.InYears) →
      ((ts.map (toFormattedString · true)).Pairwise (· ≤ ·) ↔
        ts.Pairwise fun t t' => ¬ t'.lt t = true) := by
  refine ⟨fun t t' h h' => ⟨?_, h.text_lt_iff h', h.text_eq_iff h'⟩, fun ts hts => ?_⟩
  · rw [h.text_eq.2, h'.text_eq.2]
  · rw [List.pairwise_map]
    refine List.Pairwise.iff_of_mem fun {t t'} ht ht' => ?_
    rw [← (hts t' ht').text_lt_iff (hts t ht)]
    exact Iff.rfl

/-- The last microsecond before a leap day, and the next one. -/
theorem toFormattedString_order_leapDay :
    (⟨951782399999999⟩ : Timestamp).toFormattedString true <
      (⟨951782400000000⟩ : Timestamp).toFormattedString true :=
  (toFormattedString_order.1 ⟨951782399999999⟩ ⟨951782400000000⟩ ⟨by decide, by decide⟩
    ⟨by decide, by decide⟩).2.1.mpr (by decide)

end Timestamp

end MultiThreadLog
