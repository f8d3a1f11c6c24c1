import MultiThreadLog.ThreadPool.Moves

/-!
# The task queue of `ThreadPool`

`Queued` is what the mutex protects: the queue is the accepted tasks that no worker has removed
yet, and it stays within the bound because `run` looks again after every wait.
-/

namespace MultiThreadLog

namespace ThreadPool

variable {τ : Type} {s s' : ThreadPool τ} {a : Act τ} {acts : List (Act τ)} {n : Nat}
  {host : Nat → Option Nat}

/-- `running_` is set. -/
def Owner.up : Owner → Bool
  | .starting _ | .started => true
  | _ => false

structure Queued (s : ThreadPool τ) : Prop where
  running : s.running = s.owner.up
  early : s.owner = .constructed → s.queue = []
  bound : 0 < s.maxQueueSize → s.queue.length ≤ s.maxQueueSize
  fifo : s.accepted = s.dequeued.map Prod.snd ++ s.queue

theorem queued_new (n : Nat) (host : Nat → Option Nat) : Queued (new n host : ThreadPool τ) :=
  ⟨rfl, fun _ => rfl, fun _ => Nat.zero_le _, rfl⟩

theorem isFull_eq_false :
    s.isFull = false ↔ (0 < s.maxQueueSize → s.queue.length < s.maxQueueSize) := by
  simp [isFull]

/-- A step that leaves the queue alone. -/
theorem Queued.moved (h : Queued s) {r : Bool} {ts : List (Worker τ)} {ps : List (Producer τ)}
    {o : Owner} {b f : List (τ × Nat)} (hr : r = o.up)
    (ho : o = .constructed → s.owner = .constructed) :
    Queued { s with
      running := r, threads := ts, producers := ps, owner := o, begun := b, finished := f } :=
  ⟨hr, fun e => h.early (ho e), h.bound, h.fifo⟩

theorem Queued.step (h : Queued s) (hs : Move s a s') : Queued s' := by
  have hup := h.running
  cases hs with
  | setMaxQueueSize ho =>
    refine ⟨hup, h.early, fun _ => ?_, h.fifo⟩
    simp [h.early ho]
  | start ho | spawn ho | started ho =>
    refine h.moved ?_ nofun
    first | rfl | rw [hup, ho]; rfl
  | stop => exact h.moved rfl nofun
  | joinOne ho | joined ho =>
    refine h.moved ?_ nofun
    rw [hup, ho]
    rfl
  | direct => exact h
  | run | waitFull | refuse | wakeProducer | hop | waitEmpty | nothing | call | finish =>
    exact h.moved hup id
  | put hi hp hr hf hsig =>
    refine ⟨hup, fun e => ?_, fun hm => ?_, ?_⟩
    · rw [hup, show s.owner = .constructed from e] at hr
      cases hr
    · show (s.queue ++ [_]).length ≤ s.maxQueueSize
      rw [List.length_append]
      exact isFull_eq_false.mp hf hm
    · show s.accepted ++ _ = _
      rw [h.fifo, List.append_assoc]
      rfl
  | take hw hp hq hs =>
    refine ⟨hup, fun e => ?_, fun hm => ?_, ?_⟩
    · have := h.early e
      rw [hq] at this
      cases this
    · have := h.bound hm
      rw [hq, List.length_cons] at this
      exact Nat.le_of_succ_le this
    · show s.accepted = _
      rw [h.fifo, hq, List.map_append, List.append_assoc]
      rfl

theorem queued_exec (h : Lts.exec step (new n host) acts = some s) : Queued s :=
  Lts.exec_keeps (fun _ _ _ hq hs => hq.step (step_move hs)) (queued_new n host) h

/-- A producer at the mutex of `run` gets through its critical section: the assertion holds. -/
theorem enqueue_defined {i : Nat} {p : Producer τ} {task : Task τ} (hi : s.producers[i]? = some p)
    (hp : p.atMutex = some task) : ∃ sig s', s.enqueue i sig = some s' := by
  have hbind : (s.producers[i]?.bind Producer.atMutex) = some task := by rw [hi]; exact hp
  obtain ⟨sig, threads, hsig⟩ := notEmpty.signal_defined s.threads
  refine ⟨sig, ?_⟩
  rw [enqueue, hbind, Option.bind_some]
  split
  · exact ⟨_, rfl⟩
  · rename_i hw
    split
    · exact ⟨_, rfl⟩
    · rename_i hr
      have hf : s.isFull = false := by simpa [hr] using hw
      rw [hf, hsig]
      exact ⟨_, rfl⟩

/-- **The queue is a bounded FIFO.** In every reachable state a bounded queue is within its bound,
no producer at the mutex runs into the assertion of `run`, and the accepted tasks are the dequeued
ones followed by the queue. -/
theorem bounded_fifo (n : Nat) (host : Nat → Option Nat) (acts : List (Act τ)) (s : ThreadPool τ)
    (h : Lts.exec step (new n host) acts = some s) :
    (0 < s.maxQueueSize → s.queue.length ≤ s.maxQueueSize) ∧
    (∀ (i : Nat) (p : Producer τ) (task : Task τ), s.producers[i]? = some p →
      p.atMutex = some task → ∃ sig s', s.step (.enqueue i sig) = some s') ∧
    s.accepted = s.dequeued.map Prod.snd ++ s.queue := by
  have hq := queued_exec h
  exact ⟨hq.bound, fun i p task hi hp => enqueue_defined hi hp, hq.fifo⟩

/-- Two producers and one worker at a queue for one task: the second producer waits until the
worker has taken the first task. -/
def oneSlot : List (Act Nat) :=
  [.setMaxQueueSize 1, .start 1, .spawn, .spawn, .enter 0, .test 0, .run 0 (some 7),
    .run 1 (some 8), .enqueue 0 none, .enqueue 1 none, .take 0 (some 1), .enqueue 1 none]

theorem bounded_fifo_oneSlot :
    ∃ s : ThreadPool Nat, Lts.exec step (new 2 fun _ => none) oneSlot = some s ∧
      s.maxQueueSize = 1 ∧ s.accepted = [some 7, some 8] ∧
      ((0 < s.maxQueueSize → s.queue.length ≤ s.maxQueueSize) ∧
      (∀ (i : Nat) (p : Producer Nat) (task : Task Nat), s.producers[i]? = some p →
        p.atMutex = some task → ∃ sig s', s.step (.enqueue i sig) = some s') ∧
      s.accepted = s.dequeued.map Prod.snd ++ s.queue) := by
  obtain ⟨s, he, hm, ha⟩ : ∃ s : ThreadPool Nat,
      Lts.exec step (new 2 fun _ => none) oneSlot = some s ∧ s.maxQueueSize = 1 ∧
        s.accepted = [some 7, some 8] := ⟨_, rfl, rfl, rfl⟩
  exact ⟨s, he, hm, ha, bounded_fifo 2 _ oneSlot s he⟩

end ThreadPool

end MultiThreadLog
