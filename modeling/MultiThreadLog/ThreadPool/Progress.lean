import MultiThreadLog.Lib.Countdown
import MultiThreadLog.ThreadPool.Stop

/-!
# How long `ThreadPool` takes

Two countdowns over the workers. After the critical section of `stop()` every worker leaves
`runInThread` within four of its steps, one more task at most among them, so `stop()` joins all of
them (`stop_joins`). Before it, every step of a worker brings some worker closer to its next `take`,
or takes a task; the tasks in front of a given one bound how often (`taken_within`). No wake-up is
lost, so as long as there are tasks some worker does not wait for one. It can step, unless the task
on it waits in its own call of `run` for a free slot.
-/

namespace MultiThreadLog

namespace ThreadPool

variable {τ : Type} {s s' s1 : ThreadPool τ} {a : Act τ} {acts : List (Act τ)} {n w : Nat}
  {host : Nat → Option Nat} {p q : Worker τ}

def Act.ofWorker : Act τ → Bool
  | .enter _ | .test _ | .take .. | .wakeWorker _ | .call _ | .finish _ => true
  | _ => false

def Act.isJoin : Act τ → Bool
  | .join => true
  | _ => false

/-! ## A worker that does not wait can step -/

/-- The worker whose step it is, unless it is a spurious wake-up. -/
def Act.worker : Act τ → Option Nat
  | .enter w | .test w | .take w _ | .call w | .finish w => some w
  | _ => none

/-- Thread `w` of the pool can make a step, without a spurious wake-up: one of `runInThread`, or
one inside the call of `run` by the task that it executes. -/
def Steps (s : ThreadPool τ) (w : Nat) : Prop :=
  (∃ a : Act τ, a.worker = some w ∧ (s.step a).isSome) ∨
  ∃ i sig, s.host i = some w ∧ (s.step (.enqueue i sig)).isSome

/-- The task that thread `w` executes waits in its own call of `run`. -/
def WaitsInRun (s : ThreadPool τ) (w : Nat) : Prop :=
  (∃ t, s.threads[w]? = some (.busy t)) ∧
  ∃ i task, s.host i = some w ∧ s.producers[i]? = some (.blocked task false)

theorem take_defined (hw : s.threads[w]? = some p) (hp : p.atMutex = true) :
    ∃ sig, (s.take w sig).isSome := by
  obtain ⟨sig, producers, hsig⟩ := notFull.signal_defined s.producers
  refine ⟨sig, ?_⟩
  have hany : s.threads[w]?.any Worker.atMutex = true := by rw [hw]; exact hp
  unfold take
  rw [if_pos hany]
  split
  · split <;> rfl
  · dsimp only
    split
    · rw [hsig]
      rfl
    · rfl

theorem inRun_iff : s.inRun w = true ↔
    ∃ i p, s.host i = some w ∧ s.producers[i]? = some p ∧ p.inRun = true := by
  simp only [inRun, List.any_eq_true, List.mem_range, Bool.and_eq_true, beq_iff_eq,
    Option.any_eq_true]
  constructor
  · rintro ⟨i, -, hhost, p, hi, hp⟩
    exact ⟨i, p, hhost, hi, hp⟩
  · rintro ⟨i, p, hhost, hi, hp⟩
    exact ⟨i, (List.getElem?_eq_some_iff.mp hi).1, hhost, p, hi, hp⟩

/-- A task that is in a call of `run` waits there, or the call goes on. -/
theorem steps_of_inRun {t : τ × Nat} (hw : s.threads[w]? = some (.busy t))
    (hr : s.inRun w = true) : s.Steps w ∨ s.WaitsInRun w := by
  obtain ⟨i, p, hhost, hi, hp⟩ := inRun_iff.mp hr
  have goes_on : ∀ {task : Task τ}, p.atMutex = some task → s.Steps w := fun hat => by
    obtain ⟨sig, s', h⟩ := enqueue_defined hi hat
    exact .inr ⟨i, sig, hhost, Option.isSome_iff_exists.mpr ⟨s', h⟩⟩
  cases p with
  | idle => cases hp
  | lock task => exact .inl (goes_on rfl)
  | blocked task woken =>
    cases woken with
    | true => exact .inl (goes_on rfl)
    | false => exact .inr ⟨⟨t, hw⟩, i, task, hhost, hi⟩

theorem steps_of_not_waits (hw : s.threads[w]? = some p) (hne : p ≠ .exited)
    (hp : notEmpty.waits p = false) : s.Steps w ∨ s.WaitsInRun w := by
  have own : ∀ {a : Act τ}, a.worker = some w → (s.step a).isSome → s.Steps w ∨ s.WaitsInRun w :=
    fun ha h => .inl (.inl ⟨_, ha, h⟩)
  cases p with
  | init =>
    refine own (a := .enter w) rfl ?_
    show (s.enter w).isSome
    unfold enter
    rw [hw]
    rfl
  | test =>
    refine own (a := .test w) rfl ?_
    show (s.test w).isSome
    unfold test
    rw [hw]
    cases s.running <;> rfl
  | lock =>
    obtain ⟨sig, h⟩ := take_defined hw rfl
    exact own (a := .take w sig) rfl h
  | blocked woken =>
    cases woken with
    | true =>
      obtain ⟨sig, h⟩ := take_defined hw rfl
      exact own (a := .take w sig) rfl h
    | false => cases hp
  | took task =>
    refine own (a := .call w) rfl ?_
    show (s.call w).isSome
    unfold call
    rw [hw]
    cases task <;> rfl
  | busy t =>
    cases hr : s.inRun w with
    | true => exact steps_of_inRun hw hr
    | false =>
      refine own (a := .finish w) rfl ?_
      show (s.finish w).isSome
      unfold finish
      simp only [hw, hr]
      rfl
  | exited => exact absurd rfl hne

/-! ## The end of `stop()` -/

/-- The steps of a worker up to its end when `running_` is cleared. -/
def Worker.toExit : Worker τ → Nat
  | .exited => 0
  | .test => 1
  | .init | .took none | .busy _ => 2
  | .took (some _) => 3
  | .lock | .blocked true => 4
  | .blocked false => 5

/-- The steps of the owner up to the end of `stop()`. -/
def joins (s : ThreadPool τ) : Nat :=
  match s.owner with
  | .joining k => s.threads.length - k + 1
  | _ => 0

def left (s : ThreadPool τ) : Nat := (s.threads.map Worker.toExit).sum + s.joins

theorem left_goto (hw : s.threads[w]? = some p) {b f : List (τ × Nat)} {ps : List (Producer τ)}
    {ts : List (Task τ)} {ds : List (Nat × Task τ)} :
    left { s.goto w q with
      begun := b, finished := f, producers := ps, queue := ts, dequeued := ds } + p.toExit =
      s.left + q.toExit := by
  have hsum := CondVar.sum_set_add (b := q) Worker.toExit hw
  have hjoins : joins { s.goto w q with
      begun := b, finished := f, producers := ps, queue := ts, dequeued := ds } = s.joins := by
    unfold joins
    simp [goto]
  show ((s.threads.set w q).map Worker.toExit).sum + joins _ + _ = _
  rw [hjoins, left]
  omega

theorem Worker.toExit_atMutex : ∀ {p : Worker τ}, p.atMutex = true → p.toExit = 4
  | .lock, _ | .blocked true, _ => rfl

theorem Hop.toExit (h : Hop false w a p q) : q.toExit < p.toExit := by
  cases h with
  | again hr => cases hr
  | _ => simp [Worker.toExit]

theorem Hop.ofWorker {r : Bool} (h : Hop r w a p q) : a.ofWorker = true := by cases h <;> rfl

/-- **One step** after the critical section of `stop()`. -/
theorem left_step (h : Stopping s1 s) (hs : Move s a s') :
    if a.ofWorker || a.isJoin then s'.left < s.left else s'.left ≤ s.left := by
  have hr := h.running
  have up : ∀ {P : Prop}, s.running = true → P := fun h' => by rw [hr] at h'; cases h'
  cases hs with
  | setMaxQueueSize ho | start ho | spawn ho | started ho | stop ho =>
    rcases h.owner with ⟨k, e⟩ | e <;> rw [e] at ho <;> cases ho
  | @joinOne k ho hk =>
    have hlt := (List.getElem?_eq_some_iff.mp hk).1
    show (s.threads.map Worker.toExit).sum + (s.threads.length - (k + 1) + 1) <
      (s.threads.map Worker.toExit).sum + s.joins
    rw [joins, ho]
    simp only
    omega
  | @joined k ho hk =>
    show (s.threads.map Worker.toExit).sum + 0 < (s.threads.map Worker.toExit).sum + s.joins
    rw [joins, ho]
    simp only
    omega
  | direct | run | refuse | wakeProducer => exact Nat.le_refl _
  | waitFull _ _ hr' | put _ _ hr' | waitEmpty _ _ _ hr' => exact up hr'
  | @hop w a p q hw hh =>
    have hlt := (hr ▸ hh).toExit
    have hsum : left (s.goto w q) + p.toExit = s.left + q.toExit := left_goto hw
    rw [if_pos (by rw [hh.ofWorker]; rfl)]
    omega
  | @nothing w sig p hw hp =>
    have hsum : left (s.goto w (.took none)) + p.toExit = s.left + 2 := left_goto hw
    rw [Worker.toExit_atMutex hp] at hsum
    show left (s.goto w (.took none)) < s.left
    omega
  | @call w t hw =>
    have hsum : left { s.goto w (.busy t) with begun := s.begun ++ [t] } + 3 = s.left + 2 :=
      left_goto hw
    show left { s.goto w (.busy t) with begun := s.begun ++ [t] } < s.left
    omega
  | @finish w t hw =>
    have hsum : left { s.goto w .test with finished := s.finished ++ [t] } + 2 = s.left + 1 :=
      left_goto hw
    show left { s.goto w .test with finished := s.finished ++ [t] } < s.left
    omega
  | @take w sig p task queue producers hw hp hq hsig =>
    have hsum : left { s.goto w (.took (task.map fun t => (t, s.dequeued.length))) with
        queue := queue
        dequeued := s.dequeued ++ [(w, task)]
        producers := producers } + p.toExit = s.left + Worker.toExit (.took _) := left_goto hw
    have hle : Worker.toExit (.took (task.map fun t => (t, s.dequeued.length))) ≤ 3 := by
      cases task <;> simp [Worker.toExit]
    rw [Worker.toExit_atMutex hp] at hsum
    show left { s.goto w (.took (task.map fun t => (t, s.dequeued.length))) with
        queue := queue
        dequeued := s.dequeued ++ [(w, task)]
        producers := producers } < s.left
    omega

theorem left_countdown (s1 : ThreadPool τ) : Lts.Countdown step (Stopping s1)
    (fun a => a.ofWorker || a.isJoin) (fun _ _ => False) left where
  keeps h hs _ := h.step (step_move hs)
  lowers h hs _ hp := by
    have := left_step h (step_move hs)
    rwa [if_pos hp] at this
  raisesNot h hs _ hp := by
    have := left_step h (step_move hs)
    rwa [if_neg (by simp [hp])] at this

theorem sum_toExit_le {l : List (Worker τ)} (h : ∀ p ∈ l, notEmpty.waits p = false) :
    (l.map Worker.toExit).sum ≤ 4 * l.length := by
  induction l with
  | nil => exact Nat.le_refl _
  | cons p l ih =>
    have hp : p.toExit ≤ 4 := by
      have hw := h p List.mem_cons_self
      cases p with
      | blocked woken =>
        cases woken with
        | true => exact Nat.le_refl _
        | false => cases hw
      | took task => cases task <;> simp [Worker.toExit]
      | _ => simp [Worker.toExit]
    have hl := ih fun q hq => h q (List.mem_cons_of_mem _ hq)
    simp only [List.map_cons, List.sum_cons, List.length_cons]
    omega

/-- **`stop()` joins all threads.** After its critical section the workers and the owner make at
most `5 n + 1` steps in any run, `n` the number of threads, and until `stop()` has returned the
owner can step, or a thread of the pool can without a spurious wake-up. -/
theorem stop_joins (n : Nat) (host : Nat → Option Nat) (acts post : List (Act τ))
    (s1 s : ThreadPool τ) (h1 : Lts.exec step (new n host) (acts ++ [.stop]) = some s1)
    (h2 : Lts.exec step s1 post = some s) :
    post.countP (fun a => a.ofWorker || a.isJoin) ≤ 5 * s1.threads.length + 1 ∧
    (s.owner ≠ .stopped → (s.step .join).isSome ∨ ∃ w < s.threads.length, s.Steps w) := by
  have hstop1 : Stopping s1 s1 := stopping_exec h1 (Lts.exec_nil step s1)
  have hstop := stopping_exec h1 h2
  have he : Lts.exec step (new n host) (acts ++ [.stop] ++ post) = some s := by
    rw [Lts.exec_append, h1, Option.bind_some, h2]
  constructor
  · have hcount := (left_countdown s1).countP_le hstop1 h2
    have hsum := sum_toExit_le ((awake_exec h1).workersUp hstop1.running)
    have hjoins : s1.joins ≤ s1.threads.length + 1 := by
      unfold joins
      split <;> omega
    have hleft : s1.left = (s1.threads.map Worker.toExit).sum + s1.joins := rfl
    omega
  · intro ho
    obtain ⟨k, e⟩ := hstop.owner.resolve_right ho
    have hA := awake_exec he
    cases hk : s.threads[k]? with
    | none => exact .inl (by simp [step, join, e, hk])
    | some p =>
      by_cases hp : p = .exited
      · exact .inl (by simp [step, join, e, hk, hp])
      · have hup := hA.workersUp hstop.running p (List.mem_of_getElem? hk)
        rcases steps_of_not_waits hk hp hup with h | ⟨-, i, task, -, hi⟩
        · exact .inr ⟨k, (List.getElem?_eq_some_iff.mp hk).1, h⟩
        · -- nobody waits in `run` any more
          cases hA.producersUp hstop.running _ (List.mem_of_getElem? hi)

theorem stop_joins_oneMoreTask :
    ∃ s1 s : ThreadPool Nat,
      Lts.exec step (new 1 fun _ => none) (threeTasks ++ [.stop]) = some s1 ∧
      Lts.exec step s1 (oneMoreTask.take 3) = some s ∧ s.owner = .joining 0 ∧
      (List.countP (fun a : Act Nat => a.ofWorker || a.isJoin) (oneMoreTask.take 3) ≤
          5 * s1.threads.length + 1 ∧
        (s.owner ≠ .stopped → (s.step .join).isSome ∨ ∃ w < s.threads.length, s.Steps w)) := by
  obtain ⟨s, he, ho⟩ : ∃ s : ThreadPool Nat,
      Lts.exec step (new 1 fun _ => none) (threeTasks ++ [.stop] ++ oneMoreTask.take 3) = some s ∧
        s.owner = .joining 0 := ⟨_, rfl, rfl⟩
  obtain ⟨s1, h1, h2⟩ := Lts.exec_append_some he
  exact ⟨s1, s, h1, h2, ho, stop_joins 1 _ threeTasks _ s1 s h1 h2⟩

/-! ## A task is taken -/

/-- The steps of a worker up to the end of its next `take`. -/
def Worker.toTake : Worker τ → Nat
  | .exited => 0
  | .lock | .blocked true => 1
  | .test | .blocked false => 2
  | .init | .busy _ | .took none => 3
  | .took (some _) => 4

/-- What lies in front of the `i`-th task: a `take` sends a worker four steps back at most. -/
def ahead (i : Nat) (s : ThreadPool τ) : Nat :=
  (s.threads.map Worker.toTake).sum + 4 * (i + 1 - s.dequeued.length)

/-- The pool runs, and the `i`-th task is in the queue. -/
structure Waiting (i : Nat) (s : ThreadPool τ) : Prop where
  queued : Queued s
  owner : s.owner = .started
  accepted : i < s.accepted.length
  waiting : s.dequeued.length ≤ i

/-- The pool is stopped, or the `i`-th task is taken. -/
def Ends (i : Nat) (s : ThreadPool τ) (a : Act τ) : Prop :=
  a = .stop ∨ ∃ s', s.step a = some s' ∧ i < s'.dequeued.length

variable {i : Nat}

theorem Waiting.running (h : Waiting i s) : s.running = true := by
  rw [h.queued.running, h.owner]
  rfl

theorem Waiting.queue_ne_nil (h : Waiting i s) : s.queue ≠ [] := by
  intro hq
  have hlen := congrArg List.length h.queued.fifo
  have hacc := h.accepted
  have hwait := h.waiting
  rw [hq, List.append_nil, List.length_map] at hlen
  omega

theorem Worker.toTake_atMutex : ∀ {p : Worker τ}, p.atMutex = true → p.toTake = 1
  | .lock, _ | .blocked true, _ => rfl

theorem toTake_wake : ∀ a : Worker τ, notEmpty.waits a = true → (notEmpty.wake a).toTake ≤ a.toTake
  | .blocked false, _ => Nat.le_succ 1

theorem Hop.toTake (h : Hop true w a p q) : q.toTake < p.toTake := by
  cases h with
  | leave hr => cases hr
  | _ => simp [Worker.toTake]

theorem ahead_goto (hw : s.threads[w]? = some p) {b f : List (τ × Nat)} :
    ahead i { s.goto w q with begun := b, finished := f } + p.toTake = ahead i s + q.toTake := by
  have hsum := CondVar.sum_set_add (b := q) Worker.toTake hw
  show ((s.threads.set w q).map Worker.toTake).sum + 4 * (i + 1 - s.dequeued.length) + _ = _
  rw [ahead]
  omega

/-- **One step** of a running pool. -/
theorem waiting_step (h : Waiting i s) (hs : s.step a = some s') (he : ¬ Ends i s a) :
    Waiting i s' ∧ if a.ofWorker then ahead i s' < ahead i s else ahead i s' ≤ ahead i s := by
  have hr := h.running
  have hne := h.queue_ne_nil
  have hwait' : s'.dequeued.length ≤ i := Nat.le_of_not_lt fun hlt => he (.inr ⟨s', hs, hlt⟩)
  have hm := step_move hs
  have hQ := h.queued.step hm
  have down : ∀ {P : Prop}, s.running = false → P := fun h' => by rw [hr] at h'; cases h'
  cases hm with
  | setMaxQueueSize ho | start ho | spawn ho | started ho | joinOne ho | joined ho =>
    rw [h.owner] at ho
    cases ho
  | stop => exact absurd (.inl rfl) he
  | direct | run | waitFull | wakeProducer =>
    exact ⟨⟨hQ, h.owner, h.accepted, hwait'⟩, Nat.le_refl _⟩
  | refuse _ _ hr' | nothing _ _ _ hr' => exact down hr'
  | waitEmpty _ _ hq => exact absurd hq hne
  | @put j sig p task threads hi hp hr' hf hsig =>
    refine ⟨⟨hQ, h.owner, ?_, hwait'⟩, ?_⟩
    · show i < (s.accepted ++ [task]).length
      rw [List.length_append]
      exact Nat.lt_add_right _ h.accepted
    · exact Nat.add_le_add_right (CondVar.sum_signal_le toTake_wake hsig) _
  | @hop w a p q hw hh =>
    have hlt := (hr ▸ hh).toTake
    have hsum : ahead i (s.goto w q) + p.toTake = ahead i s + q.toTake := ahead_goto hw
    rw [if_pos hh.ofWorker]
    exact ⟨⟨hQ, h.owner, h.accepted, hwait'⟩, by omega⟩
  | @call w t hw =>
    have hsum : ahead i { s.goto w (.busy t) with begun := s.begun ++ [t] } + 4 = ahead i s + 3 :=
      ahead_goto hw
    refine ⟨⟨hQ, h.owner, h.accepted, hwait'⟩, ?_⟩
    show ahead i { s.goto w (.busy t) with begun := s.begun ++ [t] } < ahead i s
    omega
  | @finish w t hw =>
    have hsum : ahead i { s.goto w .test with finished := s.finished ++ [t] } + 3 =
      ahead i s + 2 := ahead_goto hw
    refine ⟨⟨hQ, h.owner, h.accepted, hwait'⟩, ?_⟩
    show ahead i { s.goto w .test with finished := s.finished ++ [t] } < ahead i s
    omega
  | @take w sig p task queue producers hw hp hq hsig =>
    refine ⟨⟨hQ, h.owner, h.accepted, hwait'⟩, ?_⟩
    have hsum := CondVar.sum_set_add
      (b := .took (task.map fun t => (t, s.dequeued.length))) Worker.toTake hw
    have hle : Worker.toTake (.took (task.map fun t => (t, s.dequeued.length))) ≤ 4 := by
      cases task <;> simp [Worker.toTake]
    rw [Worker.toTake_atMutex hp] at hsum
    have hwait : s.dequeued.length + 1 ≤ i := by simpa using hwait'
    show ((s.threads.set w _).map Worker.toTake).sum +
      4 * (i + 1 - (s.dequeued ++ [(w, task)]).length) < ahead i s
    rw [ahead, List.length_append, List.length_singleton]
    omega

theorem ahead_countdown (i : Nat) : Lts.Countdown (σ := ThreadPool τ) step (Waiting i) Act.ofWorker
    (Ends i) (ahead i) where
  keeps h hs he := (waiting_step h hs he).1
  lowers h hs he hp := by
    have := (waiting_step h hs he).2
    rwa [if_pos hp] at this
  raisesNot h hs he hp := by
    have := (waiting_step h hs he).2
    rwa [if_neg (by simp [hp])] at this

theorem sum_toTake_le (l : List (Worker τ)) : (l.map Worker.toTake).sum ≤ 4 * l.length := by
  induction l with
  | nil => exact Nat.le_refl _
  | cons p l ih =>
    have hp : p.toTake ≤ 4 := by
      cases p with
      | blocked woken => cases woken <;> simp [Worker.toTake]
      | took task => cases task <;> simp [Worker.toTake]
      | _ => simp [Worker.toTake]
    simp only [List.map_cons, List.sum_cons, List.length_cons]
    omega

/-- A task is never put back. -/
theorem dequeued_exec (h : Lts.exec step s acts = some s') :
    s.dequeued.length ≤ s'.dequeued.length := by
  refine Lts.exec_keeps (P := fun u : ThreadPool τ => s.dequeued.length ≤ u.dequeued.length)
    (fun u a v hu hs => ?_) (Nat.le_refl _) h
  cases step_move hs with
  | take => exact Nat.le_trans hu (by simp)
  | _ => exact hu

/-- `start()` has returned and `stop()` has not been called. -/
theorem started_exec (ho : s1.owner = .started) (hstop : .stop ∉ acts)
    (h : Lts.exec step s1 acts = some s) : s.owner = .started := by
  refine Lts.exec_inv (P := fun acts (u : ThreadPool τ) => .stop ∉ acts → u.owner = .started)
    (fun _ => ho) (fun acts u a v _ ih hs hstop => ?_) h hstop
  have hu := ih fun hmem => hstop (List.mem_append_left _ hmem)
  cases step_move hs with
  | stop => exact absurd (List.mem_append_right _ List.mem_cons_self) hstop
  | started => rfl
  | setMaxQueueSize ho | start ho | spawn ho | joinOne ho | joined ho =>
    rw [hu] at ho
    cases ho
  | _ => exact hu

/-- Without threads nothing is accepted, because `run` executes the task itself, and no worker
leaves a pool that runs. -/
structure Staffed (s : ThreadPool τ) : Prop where
  accepted : s.threads = [] → s.accepted = []
  idle : s.threads = [] → ∀ p ∈ s.producers, p = .idle
  stay : s.running = true → ∀ p ∈ s.threads, p ≠ .exited

theorem exited_wake : ∀ a : Worker τ, notEmpty.waits a = true → notEmpty.wake a ≠ .exited
  | .blocked false, _ => nofun

theorem Hop.not_exited_of_running (h : Hop true w a p q) : q ≠ .exited := by
  cases h with
  | leave hr => cases hr
  | _ => exact nofun

theorem set_ne_nil {l : List (Worker τ)} (hw : l[w]? = some p) : l.set w q ≠ [] := fun e => by
  have hlt := (List.getElem?_eq_some_iff.mp hw).1
  have hlen := congrArg List.length e
  rw [List.length_set, List.length_nil] at hlen
  omega

theorem not_exited_set {l : List (Worker τ)} (h : ∀ x ∈ l, x ≠ .exited) (hq : q ≠ .exited) :
    ∀ x ∈ l.set w q, x ≠ .exited := fun x hx => by
  rcases List.mem_or_eq_of_mem_set hx with hx | rfl
  · exact h x hx
  · exact hq

/-- Worker `w` goes on. -/
theorem Staffed.goto (h : Staffed s) (hw : s.threads[w]? = some p)
    (hq : s.running = true → q ≠ .exited) {ts : List (Task τ)} {ps : List (Producer τ)}
    {ds : List (Nat × Task τ)} {b f : List (τ × Nat)} :
    Staffed { s.goto w q with
      queue := ts, producers := ps, dequeued := ds, begun := b, finished := f } := by
  exact ⟨fun e => absurd e (set_ne_nil hw), fun e => absurd e (set_ne_nil hw), fun hr =>
    not_exited_set (h.stay hr) (hq hr)⟩

theorem Staffed.step (h : Staffed s) (hs : Move s a s') : Staffed s' := by
  have nobody : ∀ {i : Nat} {p : Producer τ} {P : Prop}, s.producers[i]? = some p → p ≠ .idle →
      s.threads = [] → P := fun hi hp ht => absurd (h.idle ht _ (List.mem_of_getElem? hi)) hp
  have busy : ∀ {p : Producer τ} {task : Task τ}, p.atMutex = some task → p ≠ .idle := by
    rintro p task hp rfl
    cases hp
  cases hs with
  | setMaxQueueSize | started | joinOne | joined | direct => exact ⟨h.accepted, h.idle, h.stay⟩
  | start ho ht => exact ⟨h.accepted, h.idle, fun _ p hp => by rw [ht] at hp; cases hp⟩
  | spawn =>
    refine ⟨fun e => by simp at e, fun e => by simp at e, fun hr p hp => ?_⟩
    rcases List.mem_append.mp hp with hp | hp
    · exact h.stay hr p hp
    · rw [List.mem_singleton.mp hp]
      exact nofun
  | stop =>
    refine ⟨fun e => h.accepted (List.map_eq_nil_iff.mp e), fun e p hp => ?_, nofun⟩
    obtain ⟨q, hq, rfl⟩ := List.mem_map.mp hp
    rw [h.idle (List.map_eq_nil_iff.mp e) q hq]
    rfl
  | run hi ht => exact ⟨fun e => absurd e ht, fun e => absurd e ht, h.stay⟩
  | waitFull hi hp | refuse hi hp =>
    exact ⟨h.accepted, fun e => nobody hi (busy hp) e, h.stay⟩
  | wakeProducer hi => exact ⟨h.accepted, fun e => nobody hi nofun e, h.stay⟩
  | @put i sig p task threads hi hp hr hf hsig =>
    rcases CondVar.signal_cases hsig with ⟨w, x, hx, hwait, rfl⟩ | ⟨-, rfl⟩
    · exact ⟨fun e => absurd e (set_ne_nil hx), fun e => absurd e (set_ne_nil hx), fun hr =>
        not_exited_set (h.stay hr) (exited_wake x hwait)⟩
    · exact ⟨fun e => nobody hi (busy hp) e, fun e => nobody hi (busy hp) e, h.stay⟩
  | hop hw hh =>
    refine h.goto hw fun hr => ?_
    rw [hr] at hh
    exact hh.not_exited_of_running
  | waitEmpty hw | nothing hw | call hw | finish hw | take hw =>
    refine h.goto hw fun _ => ?_
    exact nofun

theorem staffed_exec (h : Lts.exec step (new n host) acts = some s) : Staffed s :=
  Lts.exec_keeps (fun _ _ _ hd hs => hd.step (step_move hs))
    ⟨fun _ => rfl, fun _ _ hp => List.eq_of_mem_replicate hp, fun _ _ hp => by cases hp⟩ h

/-- While there are tasks and the pool runs, some thread of the pool is on its way, unless the
tasks on all of them wait in `run`. -/
theorem steps_of_queue (hA : Awake s) (hS : Staffed s) (hr : s.running = true)
    (hq : s.queue ≠ []) (ht : s.threads ≠ []) :
    (∃ w < s.threads.length, s.Steps w) ∨
      s.threads ≠ [] ∧ ∀ w < s.threads.length, s.WaitsInRun w := by
  by_cases hwait : ∃ p ∈ s.threads, notEmpty.waits p = true
  · -- somebody waits, so as many are woken as there are tasks
    have hcov := hA.workers hr hwait
    have hpos := List.length_pos_iff.mpr hq
    obtain ⟨p, hp, hwoken⟩ := List.countP_pos_iff.mp (Nat.lt_of_lt_of_le hpos hcov)
    obtain ⟨w, hw⟩ := List.getElem?_of_mem hp
    have hnot : notEmpty.waits p = false := by
      cases p with
      | blocked woken =>
        cases woken with
        | true => rfl
        | false => cases hwoken
      | _ => rfl
    rcases steps_of_not_waits hw (hS.stay hr p hp) hnot with h | ⟨⟨t, hbusy⟩, -⟩
    · exact .inl ⟨w, (List.getElem?_eq_some_iff.mp hw).1, h⟩
    · rw [hw] at hbusy
      cases hbusy
      cases hwoken
  · by_cases hsteps : ∃ w < s.threads.length, s.Steps w
    · exact .inl hsteps
    · refine .inr ⟨ht, fun w hw => ?_⟩
      have hget := List.getElem?_eq_getElem hw
      have hmem := List.mem_of_getElem? hget
      have hnot : notEmpty.waits s.threads[w] = false := by
        by_contra hn
        exact hwait ⟨_, hmem, by simpa using hn⟩
      exact (steps_of_not_waits hget (hS.stay hr _ hmem) hnot).resolve_left fun h =>
        hsteps ⟨w, hw, h⟩

/-- **A task is taken in bounded time.** `s1` is a state of a pool that runs, with an `i`-th
accepted task, and `s` a later one before `stop()`. When the workers have made more steps meanwhile
than four for each worker and four for each task up to the `i`-th, it has been taken; and as long as
it has not, some thread of the pool can step without a spurious wake-up, unless the tasks on all of
them wait in their own calls of `run`. -/
theorem taken_within (n : Nat) (host : Nat → Option Nat) (acts post : List (Act τ))
    (s1 s : ThreadPool τ) (h1 : Lts.exec step (new n host) acts = some s1)
    (ho : s1.owner = .started) (h2 : Lts.exec step s1 post = some s) (hstop : .stop ∉ post)
    (i : Nat) (hi : i < s1.accepted.length) :
    (4 * (s1.threads.length + (i + 1 - s1.dequeued.length)) < post.countP Act.ofWorker →
      i < s.dequeued.length) ∧
    (s.dequeued.length ≤ i →
      (∃ w < s.threads.length, s.Steps w) ∨
        s.threads ≠ [] ∧ ∀ w < s.threads.length, s.WaitsInRun w) := by
  have he : Lts.exec step (new n host) (acts ++ post) = some s := by
    rw [Lts.exec_append, h1, Option.bind_some, h2]
  constructor
  · intro hcount
    by_contra hlt
    have hmono := dequeued_exec h2
    have hw : Waiting i s1 := ⟨queued_exec h1, ho, hi, by omega⟩
    have hsum := sum_toTake_le s1.threads
    have hahead : ahead i s1 =
        (s1.threads.map Worker.toTake).sum + 4 * (i + 1 - s1.dequeued.length) := rfl
    obtain ⟨before, a, after, u, e, hu, hends, -⟩ :=
      (ahead_countdown i).exists_before hw h2 (by omega)
    rcases hends with rfl | ⟨v, hv, hlt'⟩
    · exact hstop (by rw [e]; simp)
    · rw [e, Lts.exec_append, hu, Option.bind_some, Lts.exec, hv, Option.bind_some] at h2
      have := dequeued_exec h2
      omega
  · intro hwait
    have ho' := started_exec ho hstop h2
    have hS := staffed_exec he
    have hacc : s1.accepted.length ≤ s.accepted.length := by
      refine Lts.exec_keeps (P := fun u : ThreadPool τ => s1.accepted.length ≤ u.accepted.length)
        (fun u a v hu hs => ?_) (Nat.le_refl _) h2
      cases step_move hs with
      | put => exact Nat.le_trans hu (by simp)
      | _ => exact hu
    have hw : Waiting i s := ⟨queued_exec he, ho', by omega, hwait⟩
    refine steps_of_queue (awake_exec he) hS hw.running hw.queue_ne_nil fun ht => ?_
    rw [hS.accepted ht] at hacc
    simp only [List.length_nil] at hacc
    omega

/-- Both workers take a task. -/
def twoTakes : List (Act Nat) := [.take 0 none, .call 0, .take 1 none]

/-- The third task is still in the queue. -/
theorem taken_within_twoTakes :
    ∃ s1 s : ThreadPool Nat, Lts.exec step (new 1 fun _ => none) (threeTasks.take 14) = some s1 ∧
      s1.owner = .started ∧ Lts.exec step s1 twoTakes = some s ∧ 2 < s1.accepted.length ∧
      s.dequeued.length = 2 ∧
      ((4 * (s1.threads.length + (2 + 1 - s1.dequeued.length)) <
          twoTakes.countP Act.ofWorker → 2 < s.dequeued.length) ∧
      (s.dequeued.length ≤ 2 →
        (∃ w < s.threads.length, s.Steps w) ∨
          s.threads ≠ [] ∧ ∀ w < s.threads.length, s.WaitsInRun w)) := by
  obtain ⟨s1, h1, ho, hi⟩ : ∃ s1 : ThreadPool Nat,
      Lts.exec step (new 1 fun _ => none) (threeTasks.take 14) = some s1 ∧ s1.owner = .started ∧
        s1.accepted = [some 7, some 8, some 9] := ⟨_, rfl, rfl, rfl⟩
  obtain ⟨s, he, hd⟩ : ∃ s : ThreadPool Nat,
      Lts.exec step (new 1 fun _ => none) (threeTasks.take 14 ++ twoTakes) = some s ∧
        s.dequeued.length = 2 := ⟨_, rfl, rfl⟩
  rw [Lts.exec_append, h1, Option.bind_some] at he
  have hlt : 2 < s1.accepted.length := by rw [hi]; decide
  exact ⟨s1, s, h1, ho, he, hlt, hd, taken_within 1 _ _ _ s1 s h1 ho he (by simp [twoTakes]) 2 hlt⟩

end ThreadPool

end MultiThreadLog
