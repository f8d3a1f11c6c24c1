import MultiThreadLog.Time.Tm

/-!
# `Timestamp`

Microseconds since the epoch (`Timestamp.h`). C++ division truncates, so before the epoch the
second is rounded towards it.
-/

namespace MultiThreadLog

open Bytes Numeral

structure Timestamp where
  microSecondsSinceEpoch : Int

namespace Timestamp

def kMicroSecondsPerSecond : Int := 1000 * 1000

def seconds (t : Timestamp) : Int := t.microSecondsSinceEpoch.tdiv kMicroSecondsPerSecond

def microseconds (t : Timestamp) : Int := t.microSecondsSinceEpoch.tmod kMicroSecondsPerSecond

/-- `operator<`. -/
def lt (lhs rhs : Timestamp) : Bool := lhs.microSecondsSinceEpoch < rhs.microSecondsSinceEpoch

/-- The `char buf[64]` keeps 63 bytes. -/
def toFormattedString (t : Timestamp) (showMicroseconds : Bool) : List UInt8 :=
  let tm_time := gmtime t.seconds
  if showMicroseconds then
    (dateTimeText tm_time ++ ascii "." ++ zeroField 6 t.microseconds).take 63
  else (dateTimeText tm_time).take 63

theorem microseconds_of_nonneg {t : Timestamp} (h : 0 ≤ t.microSecondsSinceEpoch) :
    0 ≤ t.microseconds ∧ t.microseconds < 1000000 := by
  have hk : kMicroSecondsPerSecond = 1000000 := rfl
  unfold microseconds
  rw [Int.tmod_eq_emod_of_nonneg h, hk]
  omega

end Timestamp

end MultiThreadLog
