import MultiThreadLog.Lib.Runs
import MultiThreadLog.LogStream.FixedBuffer
import MultiThreadLog.Time.Timestamp

/-!
# `AsyncLogging`: producers, backend and owner

One object of `AsyncLogging.cc` as a step function over all its threads. Any number of producers
call `append`; the backend runs `threadFunc`; the owner calls `start()` and `stop()`. What
happens while a thread holds `mutex_` is one step, except that the backend's critical section is
split where another thread can see it: at the test `buffers_.empty()`, when the wait gives the
mutex back, and when it has it again. `running_` and `cond_.notify()` need no mutex.

A wait ends by a notification, a timeout or spuriously; `woken` records that a notification was
issued while the backend was blocked. A label carries what the step gets from outside: the
message, the clock, and the storage `new Buffer` returns, which is never that of a live buffer.

A step without successor is a step that cannot be taken, or one whose behaviour is undefined: a
store outside a buffer, a null pointer used, an `assert` that fails.
-/

namespace MultiThreadLog

open Bytes Numeral

/-- What `operator new` returns: an address, and the bytes found there. -/
structure Fresh where
  addr : Nat
  leftover : Nat → UInt8

structure Buffer where
  addr : Nat
  buf : FixedBuffer kLargeBuffer

namespace Buffer

def new (m : Fresh) : Buffer := ⟨m.addr, .new m.leftover⟩

def avail (b : Buffer) : Nat := b.buf.avail

def length (b : Buffer) : Nat := b.buf.length

def toString (b : Buffer) : List UInt8 := b.buf.toString

def bzero (b : Buffer) : Buffer := { b with buf := b.buf.bzero }

def reset (b : Buffer) : Buffer := { b with buf := b.buf.reset }

def append (b : Buffer) (logline : List UInt8) (len : Nat) : Option Buffer :=
  (b.buf.append logline len).map fun buf => { b with buf }

end Buffer

structure Msg where
  logline : List UInt8
  len : Nat

/-- Where the backend is in `threadFunc`. At `check`, `wait` and `swap` it holds `mutex_`. -/
inductive Pc where
  | unstarted
  | entry
  | setup
  | test
  | lock
  | check
  | wait
  | blocked (woken : Bool)
  | swap
  | trim
  | write (k : Nat)
  | resize
  | recycle1
  | recycle2
  | clear
  | exited
  deriving DecidableEq

def Pc.holdsMutex : Pc → Bool
  | .check | .wait | .swap => true
  | _ => false

def Pc.signalled : Pc → Pc
  | .blocked _ => .blocked true
  | pc => pc

/-- Where the owner is: `start()` ends at `started`, `stop()` is called at `stopping` and
returns at `joined`. -/
inductive Owner where
  | constructed
  | starting
  | started
  | stopping
  | cleared
  | notified
  | joined
  deriving DecidableEq

/-- A call on the backend's `LogFile output`. -/
inductive Call where
  | append (bytes : List UInt8)
  | flush

def Call.bytes? : Call → Option (List UInt8)
  | .append bytes => some bytes
  | .flush => none

structure AsyncLogging where
  running : Bool
  latch : Nat
  currentBuffer : Option Buffer
  nextBuffer : Option Buffer
  buffers : List Buffer
  newBuffer1 : Option Buffer
  newBuffer2 : Option Buffer
  buffersToWrite : List Buffer
  output : List Call
  pc : Pc
  owner : Owner

inductive Act where
  | append (m : Msg) (fresh : Fresh)
  | start
  | started
  | stop
  | clearRunning
  | notify
  | join
  | countDown
  | setup (fresh1 fresh2 : Fresh)
  | test
  | lock
  | check
  | wait
  | wake
  | swap
  | trim (now : Timestamp)
  | write
  | resize
  | recycle1
  | recycle2
  | clear

/-- The notice of an overload drop, `snprintf` into 256 bytes. -/
def noticeText (now : Timestamp) (dropped : Nat) : List UInt8 :=
  (ascii "Dropped log messages at " ++ now.toFormattedString true ++ ascii ", " ++
    decimal dropped ++ ascii " larger buffers\n").take 255

namespace AsyncLogging

def new (fresh1 fresh2 : Fresh) : AsyncLogging where
  running := false
  latch := 1
  currentBuffer := some (Buffer.new fresh1).bzero
  nextBuffer := some (Buffer.new fresh2).bzero
  buffers := []
  newBuffer1 := none
  newBuffer2 := none
  buffersToWrite := []
  output := []
  pc := .unstarted
  owner := .constructed

/-- The buffers held by the object and by the backend's local variables. -/
def live (s : AsyncLogging) : List Buffer :=
  s.currentBuffer.toList ++ s.nextBuffer.toList ++ s.buffers ++ s.buffersToWrite ++
    s.newBuffer1.toList ++ s.newBuffer2.toList

def alloc (s : AsyncLogging) (m : Fresh) : Option Buffer :=
  if m.addr ∈ s.live.map Buffer.addr then none else some (Buffer.new m)

def signal (s : AsyncLogging) : AsyncLogging := { s with pc := s.pc.signalled }

/-! ## Producers -/

def append (s : AsyncLogging) (m : Msg) (fresh : Fresh) : Option AsyncLogging :=
  if s.pc.holdsMutex then none
  else s.currentBuffer.bind fun currentBuffer =>
    if m.len < currentBuffer.avail then
      (currentBuffer.append m.logline m.len).map fun b => { s with currentBuffer := some b }
    else
      let s' := { s with buffers := s.buffers ++ [currentBuffer], nextBuffer := none }
      (match s.nextBuffer with
        | some b => some b
        | none => s.alloc fresh).bind fun b =>
      (b.append m.logline m.len).map fun b => signal { s' with currentBuffer := some b }

/-! ## The owner -/

/-- `running_ = true; thread_.start()`, which asserts that the thread was not started before. -/
def start (s : AsyncLogging) : Option AsyncLogging :=
  if s.owner = .constructed ∧ s.pc = .unstarted then
    some { s with running := true, pc := .entry, owner := .starting }
  else none

def started (s : AsyncLogging) : Option AsyncLogging :=
  if s.owner = .starting ∧ s.latch = 0 then some { s with owner := .started } else none

def stop (s : AsyncLogging) : Option AsyncLogging :=
  if s.owner = .started then some { s with owner := .stopping } else none

def clearRunning (s : AsyncLogging) : Option AsyncLogging :=
  if s.owner = .stopping then some { s with running := false, owner := .cleared } else none

def notify (s : AsyncLogging) : Option AsyncLogging :=
  if s.owner = .cleared then some (signal { s with owner := .notified }) else none

/-- `thread_.join()` returns, and with it `stop()`. -/
def join (s : AsyncLogging) : Option AsyncLogging :=
  if s.owner = .notified ∧ s.pc = .exited then some { s with owner := .joined } else none

/-! ## The backend -/

/-- `assert(running_ == true); latch_.countDown()`. -/
def countDown (s : AsyncLogging) : Option AsyncLogging :=
  if s.pc = .entry ∧ s.running then some { s with latch := s.latch - 1, pc := .setup } else none

def setup (s : AsyncLogging) (fresh1 fresh2 : Fresh) : Option AsyncLogging :=
  if s.pc = .setup then
    (s.alloc fresh1).bind fun b1 =>
    let s := { s with newBuffer1 := some b1.bzero }
    (s.alloc fresh2).map fun b2 => { s with newBuffer2 := some b2.bzero, pc := .test }
  else none

/-- `while (running_)`; behind the loop the last flush and the end of the local variables. -/
def test (s : AsyncLogging) : Option AsyncLogging :=
  if s.pc = .test then
    if s.running then some { s with pc := .lock }
    else some { s with
      newBuffer1 := none
      newBuffer2 := none
      buffersToWrite := []
      output := s.output ++ [.flush]
      pc := .exited }
  else none

def lock (s : AsyncLogging) : Option AsyncLogging :=
  if s.pc = .lock then some { s with pc := .check } else none

def check (s : AsyncLogging) : Option AsyncLogging :=
  if s.pc = .check then
    if s.buffers.isEmpty then some { s with pc := .wait } else some { s with pc := .swap }
  else none

def wait (s : AsyncLogging) : Option AsyncLogging :=
  if s.pc = .wait then some { s with pc := .blocked false } else none

def wake (s : AsyncLogging) : Option AsyncLogging :=
  match s.pc with
  | .blocked _ => some { s with pc := .swap }
  | _ => none

def swap (s : AsyncLogging) : Option AsyncLogging :=
  if s.pc = .swap then
    s.currentBuffer.map fun currentBuffer =>
      { s with
        currentBuffer := s.newBuffer1
        newBuffer1 := none
        buffersToWrite := s.buffers ++ [currentBuffer]
        buffers := s.buffersToWrite
        nextBuffer := s.nextBuffer.or s.newBuffer2
        newBuffer2 := if s.nextBuffer.isSome then s.newBuffer2 else none
        pc := .trim }
  else none

/-- More than 25 buffers: a notice, and only the first two stay. -/
def trim (s : AsyncLogging) (now : Timestamp) : Option AsyncLogging :=
  if s.pc = .trim ∧ s.buffersToWrite ≠ [] then
    if 25 < s.buffersToWrite.length then
      some { s with
        output := s.output ++ [.append (noticeText now (s.buffersToWrite.length - 2))]
        buffersToWrite := s.buffersToWrite.take 2
        pc := .write 0 }
    else some { s with pc := .write 0 }
  else none

/-- The loop over `buffersToWrite`, at its `k`-th buffer. -/
def write (s : AsyncLogging) : Option AsyncLogging :=
  match s.pc with
  | .write k =>
    match s.buffersToWrite[k]? with
    | some b => some { s with output := s.output ++ [.append b.toString], pc := .write (k + 1) }
    | none => some { s with pc := .resize }
  | _ => none

def resize (s : AsyncLogging) : Option AsyncLogging :=
  if s.pc = .resize then
    some { s with buffersToWrite := s.buffersToWrite.take 2, pc := .recycle1 }
  else none

/-- `if (!newBuffer1)`: `back()` of an empty vector is the failing `assert`. -/
def recycle1 (s : AsyncLogging) : Option AsyncLogging :=
  if s.pc = .recycle1 then
    match s.newBuffer1 with
    | some _ => some { s with pc := .recycle2 }
    | none => s.buffersToWrite.getLast?.map fun b =>
      { s with
        newBuffer1 := some b.reset
        buffersToWrite := s.buffersToWrite.dropLast
        pc := .recycle2 }
  else none

def recycle2 (s : AsyncLogging) : Option AsyncLogging :=
  if s.pc = .recycle2 then
    match s.newBuffer2 with
    | some _ => some { s with pc := .clear }
    | none => s.buffersToWrite.getLast?.map fun b =>
      { s with
        newBuffer2 := some b.reset
        buffersToWrite := s.buffersToWrite.dropLast
        pc := .clear }
  else none

def clear (s : AsyncLogging) : Option AsyncLogging :=
  if s.pc = .clear then
    some { s with buffersToWrite := [], output := s.output ++ [.flush], pc := .test }
  else none

def step (s : AsyncLogging) : Act → Option AsyncLogging
  | .append m fresh => s.append m fresh
  | .start => s.start
  | .started => s.started
  | .stop => s.stop
  | .clearRunning => s.clearRunning
  | .notify => s.notify
  | .join => s.join
  | .countDown => s.countDown
  | .setup fresh1 fresh2 => s.setup fresh1 fresh2
  | .test => s.test
  | .lock => s.lock
  | .check => s.check
  | .wait => s.wait
  | .wake => s.wake
  | .swap => s.swap
  | .trim now => s.trim now
  | .write => s.write
  | .resize => s.resize
  | .recycle1 => s.recycle1
  | .recycle2 => s.recycle2
  | .clear => s.clear

def handed (s : AsyncLogging) : List (List UInt8) := s.output.filterMap Call.bytes?

end AsyncLogging

end MultiThreadLog
