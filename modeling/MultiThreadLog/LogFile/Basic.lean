import MultiThreadLog.Lib.Runs
import MultiThreadLog.Time.Tm

/-!
# `AppendFile` and `LogFile`

`AppendFile` (`FileUtil.cc`) is the stream of one opened file: the bytes the stream accepted, how
many of them a flush or the close has pushed out, and the counter `writenBytes_`. The answers of
`fwrite_unlocked` are an argument of `append`.

`LogFile` (`LogFile.cc`) writes to the current file and replaces it by a new one: when the file
is too large, at the first check in another UTC day, or on request, but only when the clock has
passed the second of the last roll. Clock readings are arguments, one for each `time(NULL)` an
operation can make. `closed` lists the files replaced so far. The optional mutex only serializes
callers and is left out; a null `file_` has no successor.
-/

namespace MultiThreadLog

open Bytes Numeral

/-! ## `AppendFile` -/

/-- One answer of `fwrite_unlocked`: the bytes accepted, and `ferror` afterwards. -/
structure FwriteResult where
  accepted : Nat
  error : Bool

structure AppendFile where
  name : List UInt8
  /-- The clock reading the name was made from. -/
  created : Int
  content : List UInt8
  flushed : Nat
  writenBytes : Nat

namespace AppendFile

def new (filename : List UInt8) (created : Int) : AppendFile := ⟨filename, created, [], 0, 0⟩

def flush (f : AppendFile) : AppendFile := { f with flushed := f.content.length }

/-- The loop of `append` from `written` on: the stream's content afterwards, `none` when the
answers end before the loop does. -/
def appendLoop (logline : List UInt8) (len : Nat) :
    Nat → List UInt8 → List FwriteResult → Option (List UInt8)
  | written, content, [] => if written = len then some content else none
  | written, content, r :: rs =>
    if written = len then some content
    else
      let remain := len - written
      let n := min r.accepted remain
      let content := content ++ (logline.drop written).take n
      if n ≠ remain ∧ r.error then some content
      else appendLoop logline len (written + n) content rs

/-- `writenBytes_` grows by `len` whatever the loop did. -/
def append (f : AppendFile) (logline : List UInt8) (len : Nat) (rs : List FwriteResult) :
    Option AppendFile :=
  (appendLoop logline len 0 f.content rs).map fun c =>
    { f with content := c, writenBytes := f.writenBytes + len }

/-- The loop only adds to the stream. -/
theorem appendLoop_extends {logline content c : List UInt8} {len written : Nat}
    {rs : List FwriteResult} (h : appendLoop logline len written content rs = some c) :
    ∃ added, c = content ++ added := by
  induction rs generalizing written content with
  | nil =>
    unfold appendLoop at h
    split at h
    · exact ⟨[], by rw [List.append_nil, Option.some_inj.mp h]⟩
    · cases h
  | cons r rs ih =>
    unfold appendLoop at h
    split at h
    · exact ⟨[], by rw [List.append_nil, Option.some_inj.mp h]⟩
    · dsimp only at h
      split at h
      · exact ⟨_, (Option.some_inj.mp h).symm⟩
      · obtain ⟨added, rfl⟩ := ih h
        exact ⟨_, List.append_assoc _ _ _⟩

theorem append_extends {f f1 : AppendFile} {logline : List UInt8} {len : Nat}
    {rs : List FwriteResult} (h : f.append logline len rs = some f1) :
    ∃ added, f1 = { f with
      content := f.content ++ added
      writenBytes := f.writenBytes + len } := by
  obtain ⟨c, hc, rfl⟩ := Option.map_eq_some_iff.mp h
  obtain ⟨added, rfl⟩ := appendLoop_extends hc
  exact ⟨added, rfl⟩

/-- The answers of a stream that accepts everything. -/
def acceptAll (logline : List UInt8) : List FwriteResult := [⟨logline.length, false⟩]

theorem append_acceptAll (f : AppendFile) (logline : List UInt8) :
    f.append logline logline.length (acceptAll logline) =
      some { f with
        content := f.content ++ logline
        writenBytes := f.writenBytes + logline.length } := by
  rcases logline with _ | ⟨b, logline⟩
  · simp [append, acceptAll, appendLoop]
  · simp [append, acceptAll, appendLoop]

end AppendFile

/-! ## `LogFile` -/

/-- What stays fixed while the process runs: host name and process id. -/
structure Process where
  hostname : List UInt8
  pid : Int

structure LogFile where
  basename : List UInt8
  rollSize : Int
  flushInterval : Int
  checkEveryN : Int
  count : Int
  startOfPeriod : Int
  lastRoll : Int
  lastFlush : Int
  file : Option AppendFile
  closed : List AppendFile

namespace LogFile

def kRollPerSeconds : Int := 60 * 60 * 24

/-- `now / kRollPerSeconds_ * kRollPerSeconds_`. -/
def periodOf (now : Int) : Int := now.tdiv kRollPerSeconds * kRollPerSeconds

section Process

variable (proc : Process)

/-- `getLogFileName` with the clock reading `now`. -/
def getLogFileName (basename : List UInt8) (now : Int) : List UInt8 :=
  basename ++ fileTimeText (gmtime now) ++ proc.hostname ++ (ascii "." ++ decimal proc.pid) ++
    ascii ".log"

def rollFile (l : LogFile) (now : Int) : LogFile × Bool :=
  let filename := getLogFileName proc l.basename now
  let start := periodOf now
  if now > l.lastRoll then
    ({ l with
        lastRoll := now
        lastFlush := now
        startOfPeriod := start
        file := some (.new filename now)
        closed := l.closed ++ l.file.toList.map AppendFile.flush }, true)
  else (l, false)

/-- The constructor, with the clock reading of its `rollFile()`. -/
def new (basename : List UInt8) (rollSize flushInterval checkEveryN now : Int) : LogFile :=
  (rollFile proc
    { basename, rollSize, flushInterval, checkEveryN, count := 0, startOfPeriod := 0,
      lastRoll := 0, lastFlush := 0, file := none, closed := [] } now).1

def isNeedRollFile (l : LogFile) (now : Int) : Option (LogFile × Bool) :=
  l.file.map fun f =>
    if f.writenBytes > l.rollSize then (l, true)
    else if l.count + 1 ≥ l.checkEveryN then
      let l := { l with count := 0 }
      let curPeriod := periodOf now
      if curPeriod ≠ l.startOfPeriod then (l, true)
      else if now - l.lastFlush > l.flushInterval then
        ({ l with lastFlush := now, file := some f.flush }, false)
      else (l, false)
    else ({ l with count := l.count + 1 }, false)

/-- `append`: `now` is the clock reading of `isNeedRollFile`, `now'` that of `rollFile`. -/
def append (l : LogFile) (logline : List UInt8) (len : Nat) (rs : List FwriteResult)
    (now now' : Int) : Option LogFile := do
  let f ← l.file
  let f ← f.append logline len rs
  let (l, need) ← isNeedRollFile { l with file := some f } now
  return if need then (rollFile proc l now').1 else l

end Process

def flush (l : LogFile) : Option LogFile :=
  l.file.map fun f => { l with file := some f.flush }

/-- All files opened so far, in order. -/
def opened (l : LogFile) : List AppendFile := l.closed ++ l.file.toList

/-! ## What an operation can do -/

variable {proc : Process} {l : LogFile} {f : AppendFile} {now : Int}

theorem rollFile_accepted (hf : l.file = some f) (h : l.lastRoll < now) :
    (rollFile proc l now).1 = { l with
      lastRoll := now
      lastFlush := now
      startOfPeriod := periodOf now
      file := some (.new (getLogFileName proc l.basename now) now)
      closed := l.closed ++ [f.flush] } := by
  unfold rollFile
  rw [if_pos h, hf]
  rfl

theorem rollFile_refused (h : now ≤ l.lastRoll) : (rollFile proc l now).1 = l := by
  unfold rollFile
  rw [if_neg (by omega)]

/-- **The decision to roll**, with everything it changes on the way. -/
theorem isNeedRollFile_cases (hf : l.file = some f) :
    (l.rollSize < f.writenBytes ∧ l.isNeedRollFile now = some (l, true)) ∨
    (f.writenBytes ≤ l.rollSize ∧ l.count + 1 < l.checkEveryN ∧
      l.isNeedRollFile now = some ({ l with count := l.count + 1 }, false)) ∨
    (f.writenBytes ≤ l.rollSize ∧ l.checkEveryN ≤ l.count + 1 ∧ periodOf now ≠ l.startOfPeriod ∧
      l.isNeedRollFile now = some ({ l with count := 0 }, true)) ∨
    (f.writenBytes ≤ l.rollSize ∧ l.checkEveryN ≤ l.count + 1 ∧ periodOf now = l.startOfPeriod ∧
      l.flushInterval < now - l.lastFlush ∧
      l.isNeedRollFile now =
        some ({ l with count := 0, lastFlush := now, file := some f.flush }, false)) ∨
    (f.writenBytes ≤ l.rollSize ∧ l.checkEveryN ≤ l.count + 1 ∧ periodOf now = l.startOfPeriod ∧
      now - l.lastFlush ≤ l.flushInterval ∧
      l.isNeedRollFile now = some ({ l with count := 0 }, false)) := by
  unfold isNeedRollFile
  rw [hf, Option.map_some]
  by_cases h1 : (f.writenBytes : Int) > l.rollSize
  · exact .inl ⟨h1, by rw [if_pos h1]⟩
  rw [if_neg h1]
  by_cases h2 : l.count + 1 ≥ l.checkEveryN
  · rw [if_pos h2]
    by_cases h3 : periodOf now = l.startOfPeriod
    · rw [if_neg (not_not.mpr h3)]
      by_cases h4 : now - l.lastFlush > l.flushInterval
      · exact .inr (.inr (.inr (.inl ⟨by omega, h2, h3, h4, by rw [if_pos h4]⟩)))
      · exact .inr (.inr (.inr (.inr ⟨by omega, h2, h3, by omega, by rw [if_neg h4]⟩)))
    · exact .inr (.inr (.inl ⟨by omega, h2, h3, by rw [if_pos h3]⟩))
  · exact .inr (.inl ⟨by omega, by omega, by rw [if_neg h2]⟩)

/-- The current file after `logline` was written to it. -/
def written (f : AppendFile) (logline : List UInt8) : AppendFile :=
  { f with content := f.content ++ logline, writenBytes := f.writenBytes + logline.length }

theorem append_eq (hf : l.file = some f) (logline : List UInt8) (len : Nat)
    (rs : List FwriteResult) (now now' : Int) :
    l.append proc logline len rs now now' =
      (f.append logline len rs).bind fun f1 =>
        (isNeedRollFile { l with file := some f1 } now).map fun r =>
          if r.2 then (rollFile proc r.1 now').1 else r.1 := by
  unfold append
  rw [hf]
  rfl

/-- `append` on a stream that accepts everything: write, decide, perhaps roll. -/
theorem append_acceptAll (hf : l.file = some f) (logline : List UInt8) (now now' : Int) :
    l.append proc logline logline.length (AppendFile.acceptAll logline) now now' =
      (isNeedRollFile { l with file := some (written f logline) } now).map fun r =>
        if r.2 then (rollFile proc r.1 now').1 else r.1 := by
  rw [append_eq hf, AppendFile.append_acceptAll]
  rfl

end LogFile

end MultiThreadLog
