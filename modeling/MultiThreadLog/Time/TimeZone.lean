import MultiThreadLog.Lib.Bisection
import MultiThreadLog.Time.Tm

/-!
# `TimeZone`

A zone is invalid, or holds a table of local time types and of the instants at which they begin
(`TimeZone.cc`). `toLocalTime` looks the type up with `std::lower_bound`, a bisection. An access
outside a vector is undefined behaviour and has no result.
-/

namespace MultiThreadLog

open Bytes

structure Transition where
  gmttime : Int
  localtime : Int
  localtimeIdx : Nat

structure Localtime where
  gmtOffset : Int
  isDst : Bool
  arrbIdx : Nat

/-- The comparison of two transitions, by instant or by local second. -/
structure Comp where
  compareGmt : Bool

namespace Comp

def lt (comp : Comp) (lhs rhs : Transition) : Bool :=
  if comp.compareGmt then lhs.gmttime < rhs.gmttime else lhs.localtime < rhs.localtime

def equal (comp : Comp) (lhs rhs : Transition) : Bool :=
  if comp.compareGmt then lhs.gmttime = rhs.gmttime else lhs.localtime = rhs.localtime

end Comp

structure TimeZone.Data where
  transitions : List Transition
  localtimes : List Localtime
  abbreviation : List UInt8

/-- `data_`, which is null in an invalid zone. -/
structure TimeZone where
  data : Option TimeZone.Data

/-- `std::lower_bound`, which bisects the range whether it is sorted or not. -/
def lowerBound (comp : Comp) (value : Transition) (range : List Transition) : Nat :=
  Bisection.bisect (fun i => (range[i]?).any (comp.lt · value)) 0 range.length

/-- What `findLocaltime` makes of the iterator that `std::lower_bound` returned. -/
def localtimeAt (data : TimeZone.Data) (sentry : Transition) (comp : Comp) (transI : Nat) :
    Option Localtime :=
  match data.transitions[transI]? with
  | some t =>
    if comp.equal sentry t then data.localtimes[t.localtimeIdx]?
    else if transI = 0 then none
    else (data.transitions[transI - 1]?).bind fun t => data.localtimes[t.localtimeIdx]?
  | none => data.transitions.getLast?.bind fun t => data.localtimes[t.localtimeIdx]?

def findLocaltime (data : TimeZone.Data) (sentry : Transition) (comp : Comp) : Option Localtime :=
  match data.transitions with
  | [] => data.localtimes.head?
  | front :: _ =>
    if comp.lt sentry front then data.localtimes.head?
    else localtimeAt data sentry comp (lowerBound comp sentry data.transitions)

namespace TimeZone

/-- `TimeZone()`. -/
def none : TimeZone := ⟨.none⟩

/-- `TimeZone(eastUtc, name)`: one local time type. -/
def fixed (eastUtc : Int) (name : List UInt8) : TimeZone :=
  ⟨some ⟨[], [⟨eastUtc, false, 0⟩], name⟩⟩

def valid (z : TimeZone) : Bool := z.data.isSome

/-- `tm_zone` points into the abbreviations. -/
def toLocalTime (z : TimeZone) (seconds : Int) : Option Tm :=
  z.data.bind fun data =>
  (findLocaltime data ⟨seconds, 0, 0⟩ ⟨true⟩).bind fun loc =>
    if loc.arrbIdx ≤ data.abbreviation.length then
      some { gmtime (seconds + loc.gmtOffset) with
        isdst := if loc.isDst then 1 else 0
        gmtoff := loc.gmtOffset
        zone := data.abbreviation.drop loc.arrbIdx }
    else .none

def fromLocalTime (z : TimeZone) (localTm : Tm) : Option Int :=
  z.data.bind fun data =>
  let seconds := timegm localTm
  (findLocaltime data ⟨0, seconds, 0⟩ ⟨false⟩).bind fun loc =>
    if localTm.isdst ≠ 0 then
      (z.toLocalTime (seconds - loc.gmtOffset)).map fun tryTm =>
        if tryTm.isdst = 0 ∧ tryTm.hour = localTm.hour ∧ tryTm.min = localTm.min then
          seconds - 3600 - loc.gmtOffset
        else seconds - loc.gmtOffset
    else some (seconds - loc.gmtOffset)

theorem toLocalTime_eq {z : TimeZone} {seconds : Int} {tm : Tm}
    (h : z.toLocalTime seconds = some tm) :
    tm = { gmtime (seconds + tm.gmtoff) with
      isdst := tm.isdst, gmtoff := tm.gmtoff, zone := tm.zone } := by
  obtain ⟨data, -, h⟩ := Option.bind_eq_some_iff.mp h
  obtain ⟨loc, -, h⟩ := Option.bind_eq_some_iff.mp h
  split at h
  · cases h
    rfl
  · cases h

end TimeZone

end MultiThreadLog
