import MultiThreadLog.ThreadPool.Queue

/-!
# No wake-up of `ThreadPool` is lost

`Awake` counts. While `running_` is set, a waiting worker means that as many workers are on their
way as there are tasks, and a waiting producer that as many producers are on their way as there
are free slots. After `stop()` nobody waits.
-/

namespace MultiThreadLog

namespace ThreadPool

variable {τ : Type} {s s' : ThreadPool τ} {a : Act τ} {acts : List (Act τ)} {n w : Nat}
  {host : Nat → Option Nat} {p q : Worker τ}

structure Awake (s : ThreadPool τ) : Prop where
  workers : s.running = true → notEmpty.Covers s.threads s.queue.length
  producers : s.running = true → 0 < s.maxQueueSize →
    notFull.Covers s.producers (s.maxQueueSize - s.queue.length)
  workersUp : s.running = false → ∀ w ∈ s.threads, notEmpty.waits w = false
  producersUp : s.running = false → ∀ p ∈ s.producers, notFull.waits p = false

theorem awake_new (n : Nat) (host : Nat → Option Nat) : Awake (new n host : ThreadPool τ) :=
  ⟨nofun, nofun, nofun,
    fun _ p hp => by rw [List.eq_of_mem_replicate hp]; rfl⟩

/-- A hop starts at no woken worker and ends at no waiting one. -/
theorem Hop.awake {r : Bool} (h : Hop r w a p q) :
    notEmpty.woken p = false ∧ notEmpty.waits q = false := by
  cases h <;> exact ⟨rfl, rfl⟩

/-- Worker `w` goes on outside of its waits. -/
theorem Awake.goto (h : Awake s) (hw : s.threads[w]? = some p) (hp : notEmpty.woken p = false)
    (hq : notEmpty.waits q = false) {b f : List (τ × Nat)} :
    Awake { s.goto w q with begun := b, finished := f } where
  workers hr := (h.workers hr).set hw hq fun hp' => by rw [hp] at hp'; cases hp'
  producers := h.producers
  workersUp hr := CondVar.not_waits_set (h.workersUp hr) hq
  producersUp := h.producersUp

theorem Awake.gotoP {i : Nat} {p q : Producer τ} (h : Awake s) (hi : s.producers[i]? = some p)
    (hq : notFull.waits q = false) (hp : notFull.woken p = true → notFull.woken q = true) :
    Awake (s.gotoP i q) where
  workers := h.workers
  producers hr hm := (h.producers hr hm).set hi hq hp
  workersUp := h.workersUp
  producersUp hr := CondVar.not_waits_set (h.producersUp hr) hq

theorem Awake.step (h : Awake s) (hQ : Queued s) (hs : Move s a s') : Awake s' := by
  have stopped : s.running = true → s.running = false → False := fun h1 h2 => by simp [h1] at h2
  cases hs with
  | setMaxQueueSize ho =>
    have hr : s.running = false := by rw [hQ.running, ho]; rfl
    exact ⟨h.workers, fun hr' => (stopped hr' hr).elim, h.workersUp, h.producersUp⟩
  | start ho =>
    have hr : s.running = false := by rw [hQ.running, ho]; rfl
    exact ⟨fun _ => CondVar.covers_of_not_waits (h.workersUp hr),
      fun _ _ => CondVar.covers_of_not_waits (h.producersUp hr), nofun, nofun⟩
  | spawn =>
    refine ⟨fun hr => (h.workers hr).append rfl, h.producers, fun hr w hw => ?_, h.producersUp⟩
    rcases List.mem_append.mp hw with hw | hw
    · exact h.workersUp hr w hw
    · rw [List.mem_singleton.mp hw]
      rfl
  | stop =>
    exact ⟨nofun, nofun, fun _ _ hw => CondVar.not_waits_of_mem_broadcast hw,
      fun _ _ hp => CondVar.not_waits_of_mem_broadcast hp⟩
  | started | joinOne | joined => exact ⟨h.workers, h.producers, h.workersUp, h.producersUp⟩
  | direct => exact h
  | run hi => exact h.gotoP hi rfl nofun
  | wakeProducer hi => exact h.gotoP hi rfl fun _ => rfl
  | hop hw hh => exact h.goto hw hh.awake.1 hh.awake.2
  | call hw => exact h.goto hw rfl rfl
  | finish hw => exact h.goto hw rfl rfl
  | waitFull hi hp hr hf =>
    refine ⟨h.workers, fun _ hm => ?_, h.workersUp, fun hr' => (stopped hr hr').elim⟩
    -- the queue is full, so there is no free slot to account for
    have hfree : s.maxQueueSize - s.queue.length = 0 := by
      simp only [isFull, Bool.and_eq_true, decide_eq_true_eq] at hf
      omega
    show notFull.Covers _ (s.maxQueueSize - s.queue.length)
    rw [hfree]
    exact CondVar.covers_zero
  | refuse hi hp hr =>
    exact ⟨h.workers, fun hr' => (stopped hr' hr).elim, h.workersUp,
      fun _ => CondVar.not_waits_set (h.producersUp hr) rfl⟩
  | @put i sig p task threads hi hp hr hf hsig =>
    refine ⟨fun _ => ?_, fun _ hm => ?_, fun hr' => (stopped hr hr').elim,
      fun hr' => (stopped hr hr').elim⟩
    · show notEmpty.Covers threads (s.queue ++ [task]).length
      rw [List.length_append]
      exact (h.workers hr).signal hsig
    · have hlt := isFull_eq_false.mp hf hm
      refine CondVar.Covers.take ((h.producers hr hm).mono ?_) hi rfl
      show s.maxQueueSize - (s.queue ++ [task]).length + 1 ≤ _
      rw [List.length_append, List.length_singleton]
      omega
  | waitEmpty hw hp hq hr =>
    refine ⟨fun _ => ?_, h.producers, fun hr' => (stopped hr hr').elim, h.producersUp⟩
    show notEmpty.Covers _ s.queue.length
    rw [hq]
    exact CondVar.covers_zero
  | nothing hw hp hq hr =>
    exact ⟨fun hr' => (stopped hr' hr).elim, h.producers,
      fun _ => CondVar.not_waits_set (h.workersUp hr) rfl, h.producersUp⟩
  | @take w sig p task queue producers hw hp hq hsig =>
    refine ⟨fun hr => ?_, fun hr hm => ?_, fun hr => CondVar.not_waits_set (h.workersUp hr) rfl,
      fun hr => ?_⟩
    · have hcov := h.workers hr
      rw [hq, List.length_cons] at hcov
      exact hcov.take hw rfl
    · rcases hsig with ⟨-, hsig⟩ | ⟨hm', -⟩
      · refine ((h.producers hr hm).signal hsig).mono ?_
        rw [hq, List.length_cons]
        show s.maxQueueSize - queue.length ≤ _
        omega
      · exact absurd (show 0 < s.maxQueueSize from hm) (by omega)
    · rcases hsig with ⟨-, hsig⟩ | ⟨-, rfl⟩
      · show ∀ p ∈ producers, notFull.waits p = false
        rw [CondVar.signal_of_not_waits (h.producersUp hr) hsig]
        exact h.producersUp hr
      · exact h.producersUp hr

theorem awake_exec (h : Lts.exec step (new n host) acts = some s) : Awake s :=
  (Lts.exec_keeps (P := fun s : ThreadPool τ => Queued s ∧ Awake s)
    (fun _ _ _ hq hs => ⟨hq.1.step (step_move hs), hq.2.step hq.1 (step_move hs)⟩)
    ⟨queued_new n host, awake_new n host⟩ h).2

/-- **No wake-up is lost.** While `running_` is set, a waiting worker means that at least as many
workers are woken as there are tasks, and a waiting producer of a bounded queue that at least as
many producers are woken as there are free slots; after the critical section of `stop()` nobody
waits. -/
theorem no_lost_wakeup (n : Nat) (host : Nat → Option Nat) (acts : List (Act τ)) (s : ThreadPool τ)
    (h : Lts.exec step (new n host) acts = some s) :
    (s.running = true → (∃ w ∈ s.threads, w = .blocked false) →
      s.queue.length ≤ s.threads.countP notEmpty.woken) ∧
    (s.running = true → 0 < s.maxQueueSize →
      (∃ p ∈ s.producers, ∃ task, p = .blocked task false) →
      s.maxQueueSize - s.queue.length ≤ s.producers.countP notFull.woken) ∧
    ((∃ k, s.owner = .joining k) ∨ s.owner = .stopped →
      (∀ w ∈ s.threads, w ≠ .blocked false) ∧
      ∀ p ∈ s.producers, ∀ task, p ≠ .blocked task false) := by
  have hA := awake_exec h
  refine ⟨fun hr ⟨w, hw, e⟩ => hA.workers hr ⟨w, hw, by rw [e]; rfl⟩,
    fun hr hm ⟨p, hp, task, e⟩ => hA.producers hr hm ⟨p, hp, by rw [e]; rfl⟩, fun ho => ?_⟩
  have hr : s.running = false := by
    rw [(queued_exec h).running]
    rcases ho with ⟨k, ho⟩ | ho
    · rw [ho]
      rfl
    · rw [ho]
      rfl
  constructor
  · rintro w hw rfl
    cases hA.workersUp hr _ hw
  · rintro p hp task rfl
    cases hA.producersUp hr _ hp

/-- Three producers and one worker at a queue for one task: two producers wait, and the worker's
`take` wakes one of them. -/
def oneSlotFreed : List (Act Nat) :=
  [.setMaxQueueSize 1, .start 1, .spawn, .spawn, .enter 0, .test 0, .run 0 (some 7),
    .run 1 (some 8), .run 2 (some 9), .enqueue 0 none, .enqueue 1 none, .enqueue 2 none,
    .take 0 (some 1)]

theorem no_lost_wakeup_oneSlotFreed :
    ∃ s : ThreadPool Nat, Lts.exec step (new 3 fun _ => none) oneSlotFreed = some s ∧
      s.running = true ∧ s.maxQueueSize = 1 ∧ s.queue = [] ∧
      s.producers = [.idle, .blocked (some 8) true, .blocked (some 9) false] ∧
      (s.running = true → (∃ w ∈ s.threads, w = .blocked false) →
        s.queue.length ≤ s.threads.countP notEmpty.woken) ∧
      (s.running = true → 0 < s.maxQueueSize →
        (∃ p ∈ s.producers, ∃ task, p = .blocked task false) →
        s.maxQueueSize - s.queue.length ≤ s.producers.countP notFull.woken) ∧
      ((∃ k, s.owner = .joining k) ∨ s.owner = .stopped →
        (∀ w ∈ s.threads, w ≠ .blocked false) ∧
        ∀ p ∈ s.producers, ∀ task, p ≠ .blocked task false) := by
  obtain ⟨s, he, hr, hm, hq, hp⟩ : ∃ s : ThreadPool Nat,
      Lts.exec step (new 3 fun _ => none) oneSlotFreed = some s ∧ s.running = true ∧
      s.maxQueueSize = 1 ∧ s.queue = [] ∧
      s.producers = [.idle, .blocked (some 8) true, .blocked (some 9) false] :=
    ⟨_, rfl, rfl, rfl, rfl, rfl⟩
  exact ⟨s, he, hr, hm, hq, hp, no_lost_wakeup 3 _ oneSlotFreed s he⟩

end ThreadPool

end MultiThreadLog
