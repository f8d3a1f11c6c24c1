import Mathlib.Algebra.Group.Int.Defs
import MultiThreadLog.Lib.CondVar
import MultiThreadLog.Lib.Runs

/-!
# `ThreadPool`: producers, workers and owner

One object of `ThreadPool.cc` as a step function over all its threads. The owner sets the queue
size, calls `start()` once and then `stop()` once; any number of producers call `run`; the threads
of the pool execute `runInThread`. A producer is a thread outside the pool, or stands for the calls
of `run` that the tasks on the worker `host i` make: it calls only while that worker executes a
task, and the task does not return before its call does. A thread runs in one step from the point
where it has `mutex_` to the point where it gives it back, by leaving the critical section or by
waiting. The loop test of `runInThread` reads `running_` without the mutex, in a step of its own.

A blocked thread is woken by `notify()`, which wakes one waiter if there is one, by `notifyAll()`,
or spuriously (`wakeProducer`, `wakeWorker`); it goes on when it has the mutex again.

`accepted`, `dequeued`, `begun` and `finished` are the history: the tasks that `run` put into the
queue, those that `take` removed, with the worker, and those that workers began and finished. A
step without successor cannot be taken, or fails an `assert`.
-/

namespace MultiThreadLog

namespace ThreadPool

/-- A `std::function<void()>`, which may be empty. -/
abbrev Task (τ : Type) := Option τ

/-- A task taken from the queue has a number, which counts the tasks taken before it. -/
inductive Worker (τ : Type) where
  | init
  | test
  | lock
  | blocked (woken : Bool)
  | took (task : Task (τ × Nat))
  | busy (task : τ × Nat)
  | exited
  deriving DecidableEq

inductive Producer (τ : Type) where
  | idle
  | lock (task : Task τ)
  | blocked (task : Task τ) (woken : Bool)
  deriving DecidableEq

/-- At `starting n` the loop of `start()` has `n` threads to create, at `joining k` the loop of
`stop()` is at the `k`-th thread. -/
inductive Owner where
  | constructed
  | starting (n : Nat)
  | started
  | joining (k : Nat)
  | stopped
  deriving DecidableEq

variable {τ : Type}

def Worker.isBusy : Worker τ → Bool
  | .busy _ => true
  | _ => false

def Producer.inRun : Producer τ → Bool
  | .idle => false
  | _ => true

/-- The worker may enter the critical section of `take`, or go on in it. -/
def Worker.atMutex : Worker τ → Bool
  | .lock | .blocked true => true
  | _ => false

def Producer.atMutex : Producer τ → Option (Task τ)
  | .lock task | .blocked task true => some task
  | _ => none

def notEmpty : CondVar (Worker τ) where
  waits | .blocked false => true | _ => false
  woken | .blocked true => true | _ => false
  wake | .blocked _ => .blocked true | w => w
  woken_wake | .blocked false, _ => rfl
  not_waits_wake | .blocked false, _ => rfl
  not_woken | .blocked false, _ => rfl

def notFull : CondVar (Producer τ) where
  waits | .blocked _ false => true | _ => false
  woken | .blocked _ true => true | _ => false
  wake | .blocked task _ => .blocked task true | p => p
  woken_wake | .blocked _ false, _ => rfl
  not_waits_wake | .blocked _ false, _ => rfl
  not_woken | .blocked _ false, _ => rfl

/-- `signalled` is the thread that a `notify()` wakes. -/
inductive Act (τ : Type) where
  | setMaxQueueSize (maxSize : Int32)
  | start (numThreads : Nat)
  | spawn
  | stop
  | join
  | run (i : Nat) (task : Task τ)
  | enqueue (i : Nat) (signalled : Option Nat)
  | wakeProducer (i : Nat)
  | enter (w : Nat)
  | test (w : Nat)
  | take (w : Nat) (signalled : Option Nat)
  | wakeWorker (w : Nat)
  | call (w : Nat)
  | finish (w : Nat)

end ThreadPool

structure ThreadPool (τ : Type) where
  maxQueueSize : Nat
  running : Bool
  queue : List (ThreadPool.Task τ)
  threads : List (ThreadPool.Worker τ)
  producers : List (ThreadPool.Producer τ)
  host : Nat → Option Nat
  owner : ThreadPool.Owner
  accepted : List (ThreadPool.Task τ)
  dequeued : List (Nat × ThreadPool.Task τ)
  begun : List (τ × Nat)
  finished : List (τ × Nat)

namespace ThreadPool

variable {τ : Type}

/-- The constructor, for a program with `producers` callers of `run`. -/
def new (producers : Nat) (host : Nat → Option Nat) : ThreadPool τ where
  maxQueueSize := 0
  running := false
  queue := []
  threads := []
  producers := List.replicate producers .idle
  host := host
  owner := .constructed
  accepted := []
  dequeued := []
  begun := []
  finished := []

def isFull (s : ThreadPool τ) : Bool :=
  0 < s.maxQueueSize && s.maxQueueSize ≤ s.queue.length

def goto (s : ThreadPool τ) (w : Nat) (pc : Worker τ) : ThreadPool τ :=
  { s with threads := s.threads.set w pc }

def gotoP (s : ThreadPool τ) (i : Nat) (pc : Producer τ) : ThreadPool τ :=
  { s with producers := s.producers.set i pc }

/-- The task that worker `w` executes has called `run`, which has not returned. -/
def inRun (s : ThreadPool τ) (w : Nat) : Bool :=
  (List.range s.producers.length).any fun i =>
    s.host i == some w && s.producers[i]?.any Producer.inRun

def mayCall (s : ThreadPool τ) (i : Nat) : Bool :=
  match s.host i with
  | some w => s.threads[w]?.any Worker.isBusy && !s.inRun w
  | none => true

/-! ## The owner -/

/-- To be called before `start()`, as the header says; the `int` is converted to `size_t`. -/
def setMaxQueueSize (s : ThreadPool τ) (maxSize : Int32) : Option (ThreadPool τ) :=
  if s.owner = .constructed then
    some { s with maxQueueSize := (maxSize.toInt % 2 ^ 64).toNat }
  else none

def start (s : ThreadPool τ) (numThreads : Nat) : Option (ThreadPool τ) :=
  if s.owner = .constructed ∧ s.threads = [] then
    some { s with running := true, owner := .starting numThreads }
  else none

/-- The loop of `start()`: create one more thread, or return. -/
def spawn (s : ThreadPool τ) : Option (ThreadPool τ) :=
  match s.owner with
  | .starting (n + 1) => some { s with threads := s.threads ++ [.init], owner := .starting n }
  | .starting 0 => some { s with owner := .started }
  | _ => none

/-- `stop()` up to the end of its critical section. -/
def stop (s : ThreadPool τ) : Option (ThreadPool τ) :=
  if s.owner = .started then
    some { s with
      running := false
      threads := notEmpty.broadcast s.threads
      producers := notFull.broadcast s.producers
      owner := .joining 0 }
  else none

/-- The loop of `stop()`: one more thread is joined, or there is none left and `stop()` returns. -/
def join (s : ThreadPool τ) : Option (ThreadPool τ) :=
  match s.owner with
  | .joining k =>
    match s.threads[k]? with
    | some .exited => some { s with owner := .joining (k + 1) }
    | some _ => none
    | none => some { s with owner := .stopped }
  | _ => none

/-! ## Producers -/

/-- `run(task)` is called. Without threads the caller executes the task itself. -/
def run (s : ThreadPool τ) (i : Nat) (task : Task τ) : Option (ThreadPool τ) :=
  match s.producers[i]? with
  | some .idle =>
    if s.mayCall i then
      if s.threads.isEmpty then some s else some (s.gotoP i (.lock task))
    else none
  | _ => none

/-- The critical section of `run`, to its end or to `notFull_.wait()`. -/
def enqueue (s : ThreadPool τ) (i : Nat) (signalled : Option Nat) : Option (ThreadPool τ) :=
  (s.producers[i]?.bind Producer.atMutex).bind fun task =>
    if s.running && s.isFull then some (s.gotoP i (.blocked task false))
    else if s.running = false then some (s.gotoP i .idle)
    -- `assert(!isFull())`
    else if s.isFull then none
    else (notEmpty.signal s.threads signalled).map fun threads =>
      { s.gotoP i .idle with
        queue := s.queue ++ [task]
        threads := threads
        accepted := s.accepted ++ [task] }

def wakeProducer (s : ThreadPool τ) (i : Nat) : Option (ThreadPool τ) :=
  match s.producers[i]? with
  | some (.blocked task false) => some (s.gotoP i (.blocked task true))
  | _ => none

/-! ## Workers -/

/-- The thread begins, with `threadInitCallback_`. -/
def enter (s : ThreadPool τ) (w : Nat) : Option (ThreadPool τ) :=
  match s.threads[w]? with
  | some .init => some (s.goto w .test)
  | _ => none

def test (s : ThreadPool τ) (w : Nat) : Option (ThreadPool τ) :=
  match s.threads[w]? with
  | some .test => if s.running then some (s.goto w .lock) else some (s.goto w .exited)
  | _ => none

/-- The critical section of `take`, to its end or to `notEmpty_.wait()`. -/
def take (s : ThreadPool τ) (w : Nat) (signalled : Option Nat) : Option (ThreadPool τ) :=
  if s.threads[w]?.any Worker.atMutex then
    match s.queue with
    | [] => if s.running then some (s.goto w (.blocked false)) else some (s.goto w (.took none))
    | task :: queue =>
      let s' := { s.goto w (.took (task.map fun t => (t, s.dequeued.length))) with
        queue := queue
        dequeued := s.dequeued ++ [(w, task)] }
      if 0 < s.maxQueueSize then
        (notFull.signal s.producers signalled).map fun producers =>
          { s' with producers := producers }
      else some s'
  else none

def wakeWorker (s : ThreadPool τ) (w : Nat) : Option (ThreadPool τ) :=
  match s.threads[w]? with
  | some (.blocked false) => some (s.goto w (.blocked true))
  | _ => none

/-- `if (task) task();` begins. -/
def call (s : ThreadPool τ) (w : Nat) : Option (ThreadPool τ) :=
  match s.threads[w]? with
  | some (.took (some t)) => some { s.goto w (.busy t) with begun := s.begun ++ [t] }
  | some (.took none) => some (s.goto w .test)
  | _ => none

def finish (s : ThreadPool τ) (w : Nat) : Option (ThreadPool τ) :=
  match s.threads[w]? with
  | some (.busy t) =>
    if s.inRun w then none else some { s.goto w .test with finished := s.finished ++ [t] }
  | _ => none

def step (s : ThreadPool τ) : Act τ → Option (ThreadPool τ)
  | .setMaxQueueSize maxSize => s.setMaxQueueSize maxSize
  | .start numThreads => s.start numThreads
  | .spawn => s.spawn
  | .stop => s.stop
  | .join => s.join
  | .run i task => s.run i task
  | .enqueue i signalled => s.enqueue i signalled
  | .wakeProducer i => s.wakeProducer i
  | .enter w => s.enter w
  | .test w => s.test w
  | .take w signalled => s.take w signalled
  | .wakeWorker w => s.wakeWorker w
  | .call w => s.call w
  | .finish w => s.finish w

end ThreadPool

end MultiThreadLog
