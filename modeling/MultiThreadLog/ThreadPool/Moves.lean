import MultiThreadLog.ThreadPool.Basic

/-!
# What a step of `ThreadPool` can do

`Move s a s'` lists the steps by their effect, one constructor for each branch of the code. The
steps that only take one worker from one place to another are `Hop`s and share a constructor.
-/

namespace MultiThreadLog

namespace ThreadPool

variable {τ : Type}

/-- A step of worker `w` from one place to another that touches nothing else, with `running_` as
given. -/
inductive Hop (running : Bool) (w : Nat) : Act τ → Worker τ → Worker τ → Prop where
  | enter : Hop running w (.enter w) .init .test
  | again (hr : running = true) : Hop running w (.test w) .test .lock
  | leave (hr : running = false) : Hop running w (.test w) .test .exited
  | spurious : Hop running w (.wakeWorker w) (.blocked false) (.blocked true)
  | skip : Hop running w (.call w) (.took none) .test

inductive Move : ThreadPool τ → Act τ → ThreadPool τ → Prop where
  | setMaxQueueSize {s maxSize} (ho : s.owner = .constructed) :
      Move s (.setMaxQueueSize maxSize)
        { s with maxQueueSize := (maxSize.toInt % 2 ^ 64).toNat }
  | start {s numThreads} (ho : s.owner = .constructed) (ht : s.threads = []) :
      Move s (.start numThreads) { s with running := true, owner := .starting numThreads }
  | spawn {s n} (ho : s.owner = .starting (n + 1)) :
      Move s .spawn { s with threads := s.threads ++ [.init], owner := .starting n }
  | started {s} (ho : s.owner = .starting 0) : Move s .spawn { s with owner := .started }
  | stop {s} (ho : s.owner = .started) :
      Move s .stop { s with
        running := false
        threads := notEmpty.broadcast s.threads
        producers := notFull.broadcast s.producers
        owner := .joining 0 }
  | joinOne {s k} (ho : s.owner = .joining k) (hk : s.threads[k]? = some .exited) :
      Move s .join { s with owner := .joining (k + 1) }
  | joined {s k} (ho : s.owner = .joining k) (hk : s.threads.length ≤ k) :
      Move s .join { s with owner := .stopped }
  /-- Without threads the caller executes the task. -/
  | direct {s i task} (ht : s.threads = []) (hm : s.mayCall i = true) : Move s (.run i task) s
  | run {s i task} (hi : s.producers[i]? = some .idle) (ht : s.threads ≠ [])
      (hm : s.mayCall i = true) :
      Move s (.run i task) (s.gotoP i (.lock task))
  | waitFull {s i sig p task} (hi : s.producers[i]? = some p) (hp : p.atMutex = some task)
      (hr : s.running = true) (hf : s.isFull = true) :
      Move s (.enqueue i sig) (s.gotoP i (.blocked task false))
  | refuse {s i sig p task} (hi : s.producers[i]? = some p) (hp : p.atMutex = some task)
      (hr : s.running = false) : Move s (.enqueue i sig) (s.gotoP i .idle)
  | put {s i sig p task threads} (hi : s.producers[i]? = some p) (hp : p.atMutex = some task)
      (hr : s.running = true) (hf : s.isFull = false)
      (hs : notEmpty.signal s.threads sig = some threads) :
      Move s (.enqueue i sig) { s.gotoP i .idle with
        queue := s.queue ++ [task]
        threads := threads
        accepted := s.accepted ++ [task] }
  | wakeProducer {s i task} (hi : s.producers[i]? = some (.blocked task false)) :
      Move s (.wakeProducer i) (s.gotoP i (.blocked task true))
  | hop {s w a p q} (hw : s.threads[w]? = some p) (hh : Hop s.running w a p q) :
      Move s a (s.goto w q)
  | waitEmpty {s w sig p} (hw : s.threads[w]? = some p) (hp : p.atMutex = true)
      (hq : s.queue = []) (hr : s.running = true) :
      Move s (.take w sig) (s.goto w (.blocked false))
  | nothing {s w sig p} (hw : s.threads[w]? = some p) (hp : p.atMutex = true)
      (hq : s.queue = []) (hr : s.running = false) :
      Move s (.take w sig) (s.goto w (.took none))
  | take {s w sig p task queue producers} (hw : s.threads[w]? = some p) (hp : p.atMutex = true)
      (hq : s.queue = task :: queue)
      (hs : 0 < s.maxQueueSize ∧ notFull.signal s.producers sig = some producers ∨
        s.maxQueueSize = 0 ∧ producers = s.producers) :
      Move s (.take w sig)
        { s.goto w (.took (task.map fun t => (t, s.dequeued.length))) with
          queue := queue
          dequeued := s.dequeued ++ [(w, task)]
          producers := producers }
  | call {s w t} (hw : s.threads[w]? = some (.took (some t))) :
      Move s (.call w) { s.goto w (.busy t) with begun := s.begun ++ [t] }
  | finish {s w t} (hw : s.threads[w]? = some (.busy t)) (hr : s.inRun w = false) :
      Move s (.finish w) { s.goto w .test with finished := s.finished ++ [t] }

variable {s s' : ThreadPool τ}

theorem spawn_move (h : s.spawn = some s') : Move s .spawn s' := by
  unfold spawn at h
  split at h
  · rename_i n ho
    cases h
    exact .spawn ho
  · rename_i ho
    cases h
    exact .started ho
  · cases h

theorem join_move (h : s.join = some s') : Move s .join s' := by
  unfold join at h
  split at h
  · rename_i k ho
    split at h
    · rename_i hk
      cases h
      exact .joinOne ho hk
    · cases h
    · rename_i hk
      cases h
      exact .joined ho (List.getElem?_eq_none_iff.mp hk)
  · cases h

theorem run_move {i : Nat} {task : Task τ} (h : s.run i task = some s') :
    Move s (.run i task) s' := by
  unfold run at h
  split at h
  · rename_i hi
    split at h
    · rename_i hm
      split at h
      · rename_i ht
        cases h
        exact .direct (List.isEmpty_iff.mp ht) hm
      · rename_i ht
        cases h
        exact .run hi (by simpa using ht) hm
    · cases h
  · cases h

theorem enqueue_move {i : Nat} {sig : Option Nat} (h : s.enqueue i sig = some s') :
    Move s (.enqueue i sig) s' := by
  obtain ⟨task, htask, h⟩ := Option.bind_eq_some_iff.mp h
  obtain ⟨p, hi, hp⟩ := Option.bind_eq_some_iff.mp htask
  split at h
  · rename_i hw
    rw [Bool.and_eq_true] at hw
    cases h
    exact .waitFull hi hp hw.1 hw.2
  split at h
  · rename_i hr
    cases h
    exact .refuse hi hp hr
  split at h
  · cases h
  · rename_i hr hf
    obtain ⟨threads, hs, e⟩ := Option.map_eq_some_iff.mp h
    subst e
    exact .put hi hp (by simpa using hr) (by simpa using hf) hs

theorem wakeProducer_move {i : Nat} (h : s.wakeProducer i = some s') :
    Move s (.wakeProducer i) s' := by
  unfold wakeProducer at h
  split at h
  · rename_i task hi
    cases h
    exact .wakeProducer hi
  · cases h

theorem test_move {w : Nat} (h : s.test w = some s') : Move s (.test w) s' := by
  unfold test at h
  split at h
  · rename_i hw
    split at h
    · rename_i hr
      cases h
      exact .hop hw (.again hr)
    · rename_i hr
      cases h
      exact .hop hw (.leave (by simpa using hr))
  · cases h

theorem take_move {w : Nat} {sig : Option Nat} (h : s.take w sig = some s') :
    Move s (.take w sig) s' := by
  unfold take at h
  split at h
  · rename_i hw
    obtain ⟨p, hw, hp⟩ := (Option.any_eq_true _ _).mp hw
    split at h
    · rename_i hq
      split at h
      · rename_i hr
        cases h
        exact .waitEmpty hw hp hq hr
      · rename_i hr
        cases h
        exact .nothing hw hp hq (by simpa using hr)
    · rename_i task queue hq
      split at h
      · rename_i hm
        obtain ⟨producers, hs, e⟩ := Option.map_eq_some_iff.mp h
        subst e
        exact .take hw hp hq (.inl ⟨hm, hs⟩)
      · rename_i hm
        cases h
        exact .take hw hp hq (.inr ⟨by omega, rfl⟩)
  · cases h

theorem call_move {w : Nat} (h : s.call w = some s') : Move s (.call w) s' := by
  unfold call at h
  split at h
  · rename_i t hw
    cases h
    exact .call hw
  · rename_i hw
    cases h
    exact .hop hw .skip
  · cases h

/-- **Every step is a move.** -/
theorem step_move {a : Act τ} (h : s.step a = some s') : Move s a s' := by
  cases a with
  | setMaxQueueSize maxSize =>
    simp only [step, setMaxQueueSize] at h
    split at h
    · rename_i ho
      cases h
      exact .setMaxQueueSize ho
    · cases h
  | start numThreads =>
    simp only [step, start] at h
    split at h
    · rename_i hg
      cases h
      exact .start hg.1 hg.2
    · cases h
  | stop =>
    simp only [step, stop] at h
    split at h
    · rename_i ho
      cases h
      exact .stop ho
    · cases h
  | spawn => exact spawn_move h
  | join => exact join_move h
  | run i task => exact run_move h
  | enqueue i sig => exact enqueue_move h
  | wakeProducer i => exact wakeProducer_move h
  | test w => exact test_move h
  | take w sig => exact take_move h
  | call w => exact call_move h
  | enter w =>
    simp only [step, enter] at h
    split at h
    · rename_i hw
      cases h
      exact .hop hw .enter
    · cases h
  | wakeWorker w =>
    simp only [step, wakeWorker] at h
    split at h
    · rename_i hw
      cases h
      exact .hop hw .spurious
    · cases h
  | finish w =>
    simp only [step, finish] at h
    split at h
    · rename_i t hw
      split at h
      · cases h
      · rename_i hr
        cases h
        exact .finish hw (by simpa using hr)
    · cases h

end ThreadPool

end MultiThreadLog
