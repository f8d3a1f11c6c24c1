import MultiThreadLog.LogStream.Accept
import MultiThreadLog.Time.TimeZone
import MultiThreadLog.Time.Timestamp

/-!
# The time prefix of a record

`Logger::Impl::formatTime` (`Logging.cc`) keeps the text of the last second it formatted in a
thread-local buffer and formats again only when the second differs. The zone is global and can
be set at any time, and the cache does not know in which zone its text was made.

`Seen` is the cache as an abstract machine: the second, and the zone it was formatted in. The
model refines it (`Caches`), so a prefix is that of its own record exactly when the zone in force
shows the cached second as the remembered zone does.
-/

namespace MultiThreadLog

open Bytes Numeral

/-- The `__thread` variables. -/
structure ThreadLocals where
  t_lastSecond : Int
  t_time : List UInt8

/-- The broken-down time in the zone, UTC without one. -/
def brokenDown (g_logTimeZone : TimeZone) (seconds : Int) : Option Tm :=
  if g_logTimeZone.valid then g_logTimeZone.toLocalTime seconds else some (gmtime seconds)

/-- `Fmt us`. -/
def microsecondText (g_logTimeZone : TimeZone) (microseconds : Int) : Fmt :=
  ⟨ascii "." ++ zeroField 6 microseconds ++ ascii (if g_logTimeZone.valid then " " else "Z ")⟩

/-- The text in `t_time`, of which `snprintf` keeps 63 bytes, is inserted with length 17. -/
def formatTime (g_logTimeZone : TimeZone) (tl : ThreadLocals) (stream_ : LogStream)
    (time_ : Timestamp) : Option (ThreadLocals × LogStream) :=
  let seconds := time_.seconds
  let us := microsecondText g_logTimeZone time_.microseconds
  (if seconds ≠ tl.t_lastSecond then
    (brokenDown g_logTimeZone seconds).map fun tm_time => ⟨seconds, (dateTimeText tm_time).take 63⟩
  else some tl).bind fun tl =>
  (stream_.insertAll [.text (.piece ⟨tl.t_time, 17⟩), .text (.piece ⟨us.data, us.length⟩)]).map
    fun stream_ => (tl, stream_)

/-! ## One prefix -/

theorem microsecondText_length {z : TimeZone} {us : Int} (h0 : 0 ≤ us) (h1 : us < 1000000) :
    (microsecondText z us).text.length ≤ 9 := by
  have h6 : (zeroField 6 us).length = 6 := zeroField_length (by omega) h0 (by omega)
  have hdot : (ascii ".").length = 1 := by decide
  have hend : (ascii (if z.valid then " " else "Z ")).length ≤ 2 := by
    split <;> decide
  simp only [microsecondText, List.length_append, h6, hdot]
  omega

theorem ne_zero_of_mem_microsecondText {z : TimeZone} {us : Int} {b : UInt8}
    (h : b ∈ (microsecondText z us).text) : b ≠ 0 := by
  simp only [microsecondText, List.mem_append] at h
  rcases h with (h | h) | h
  · exact ne_zero_of_all (p := ascii ".") rfl b h
  · exact ne_zero_of_mem_zeroField h
  · have lit : ∀ x ∈ ascii (if z.valid then " " else "Z "), x ≠ 0 := by
      split <;> exact ne_zero_of_all rfl
    exact lit b h

/-- Two pieces go into a fresh stream whole. -/
theorem insert_prefix (leftover : Nat → UInt8) {text : List UInt8} {us : Fmt}
    (hlen : text.length = 17) (hzero : ∀ b ∈ text, b ≠ 0) (huslen : us.text.length ≤ 9)
    (hus : ∀ b ∈ us.text, b ≠ 0) :
    ∃ s, (LogStream.new leftover).insertAll
        [.text (.piece ⟨text, 17⟩), .text (.piece ⟨us.data, us.length⟩)] = some s ∧
      s.Holds (text ++ us.text) := by
  have hdata : us.data = us.text := List.take_of_length_le (by omega)
  have hok : ∀ i ∈ [Insertion.text (.piece ⟨text, 17⟩), .text (.piece ⟨us.data, us.length⟩)],
      i.Ok := by
    intro i hi
    rcases List.mem_cons.mp hi with rfl | hi
    · show strlen text = 17
      rw [strlen, cstr_eq_self hzero, hlen]
    · obtain rfl := List.mem_singleton.mp hi
      show strlen us.data = us.length
      rw [hdata, strlen, cstr_eq_self hus]
      rfl
  obtain ⟨s, hs, hh⟩ := (LogStream.holds_new leftover).insertAll hok
  refine ⟨s, hs, ?_⟩
  have h17 : text.take 17 = text := List.take_of_length_le (by omega)
  have h31 : us.text.take us.text.length = us.text := List.take_length
  have htext : LogStream.Op.apply [] (.insert (.text (.piece ⟨text, 17⟩))) = text := by
    simp [LogStream.Op.apply, Insertion.need, Insertion.bytes, Text.bytes, Text.len, h17,
      kSmallBuffer]
  have husEq : LogStream.Op.apply text (.insert (.text (.piece ⟨us.data, us.length⟩))) =
      text ++ us.text := by
    simp only [LogStream.Op.apply, Insertion.need, Insertion.bytes, Text.bytes, Text.len, hdata,
      Fmt.length, h31, hlen]
    rw [if_pos (by simp only [kSmallBuffer]; omega)]
  simp only [List.foldl_cons, List.foldl_nil, htext, husEq] at hh
  exact hh

/-- The second shown in the zone. -/
def localSecond (z : TimeZone) (seconds : Int) : Option Int :=
  (brokenDown z seconds).map fun tm => seconds + tm.gmtoff

/-- **The prefix of a record's own time**, formatted in a zone. -/
def timePrefix (z : TimeZone) (time : Timestamp) : Option (List UInt8) :=
  (brokenDown z time.seconds).map fun tm =>
    dateTimeText tm ++ (microsecondText z time.microseconds).text

theorem dateTimeText_brokenDown {z : TimeZone} {seconds : Int} {tm : Tm}
    (h : brokenDown z seconds = some tm) :
    dateTimeText tm = dateTimeText (gmtime (seconds + tm.gmtoff)) := by
  unfold brokenDown at h
  split at h
  · rw [TimeZone.toLocalTime_eq h]
    rfl
  · cases h
    show dateTimeText (gmtime seconds) = dateTimeText (gmtime (seconds + 0))
    rw [Int.add_zero]

theorem timePrefix_eq (z : TimeZone) (time : Timestamp) :
    timePrefix z time = (localSecond z time.seconds).map fun u =>
      dateTimeText (gmtime u) ++ (microsecondText z time.microseconds).text := by
  unfold timePrefix localSecond
  cases h : brokenDown z time.seconds with
  | none => rfl
  | some tm => rw [Option.map_some, Option.map_some, Option.map_some, dateTimeText_brokenDown h]

end MultiThreadLog
