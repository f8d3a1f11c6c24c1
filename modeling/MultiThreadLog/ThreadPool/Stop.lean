import Mathlib.Data.List.Nodup
import MultiThreadLog.ThreadPool.Wakeups

/-!
# `stop()` of `ThreadPool`

`Worked` says where the dequeued tasks are: at a worker that is about to call them, or begun, and
these at the worker that executes them, or finished. `Stopping` is the invariant of the steps from
the critical section of `stop()` on: nothing is accepted any more, a worker that has dequeued
again never comes back to `take`, and `stop()` has seen the end of the threads it joined.
-/

namespace MultiThreadLog

namespace ThreadPool

open scoped List

variable {τ : Type} {s s' s1 : ThreadPool τ} {a : Act τ} {acts : List (Act τ)} {n w : Nat}
  {host : Nat → Option Nat} {p q : Worker τ}

/-! ## The tasks at the workers -/

def Worker.pending : Worker τ → List (τ × Nat)
  | .took (some t) => [t]
  | _ => []

def Worker.working : Worker τ → List (τ × Nat)
  | .busy t => [t]
  | _ => []

/-- The tasks of a sequence that can be called, with their numbers. -/
def jobs (tasks : List (Task τ)) : List (τ × Nat) :=
  tasks.zipIdx.filterMap fun t => t.1.map fun task => (task, t.2)

theorem jobs_snoc (tasks : List (Task τ)) (task : Task τ) :
    jobs (tasks ++ [task]) = jobs tasks ++ (task.map fun t => (t, tasks.length)).toList := by
  rw [jobs, List.zipIdx_append, List.filterMap_append, Nat.zero_add]
  cases task <;> rfl

theorem jobs_map_some (done : List τ) : jobs (done.map some) = done.zipIdx := by
  rw [jobs, List.zipIdx_map, List.filterMap_map]
  exact List.filterMap_some

structure Worked (s : ThreadPool τ) : Prop where
  begun : s.begun ++ s.threads.flatMap Worker.pending ~ jobs (s.dequeued.map Prod.snd)
  finished : s.finished ++ s.threads.flatMap Worker.working ~ s.begun

theorem worked_new (n : Nat) (host : Nat → Option Nat) : Worked (new n host : ThreadPool τ) :=
  ⟨.refl _, .refl _⟩

theorem pending_wake : ∀ a : Worker τ, notEmpty.waits a = true →
    (notEmpty.wake a).pending = a.pending
  | .blocked false, _ => rfl

theorem working_wake : ∀ a : Worker τ, notEmpty.waits a = true →
    (notEmpty.wake a).working = a.working
  | .blocked false, _ => rfl

theorem Hop.carries {r : Bool} (h : Hop r w a p q) :
    q.pending = p.pending ∧ q.working = p.working := by
  cases h <;> exact ⟨rfl, rfl⟩

theorem Worker.carries_atMutex :
    ∀ {p : Worker τ}, p.atMutex = true → p.pending = [] ∧ p.working = []
  | .lock, _ | .blocked true, _ => ⟨rfl, rfl⟩

/-- Worker `w` goes on with what it has. -/
theorem Worked.goto (h : Worked s) (hw : s.threads[w]? = some p) (hp : q.pending = p.pending)
    (hb : q.working = p.working) : Worked (s.goto w q) where
  begun := by
    show s.begun ++ (s.threads.set w q).flatMap Worker.pending ~ _
    rw [CondVar.flatMap_set_same hw hp]
    exact h.begun
  finished := by
    show s.finished ++ (s.threads.set w q).flatMap Worker.working ~ _
    rw [CondVar.flatMap_set_same hw hb]
    exact h.finished

theorem Worked.step (h : Worked s) (hs : Move s a s') : Worked s' := by
  cases hs with
  | setMaxQueueSize | start | started | joinOne | joined | direct | run | waitFull | refuse
  | wakeProducer => exact ⟨h.begun, h.finished⟩
  | spawn =>
    constructor
    · show s.begun ++ (s.threads ++ [Worker.init]).flatMap Worker.pending ~ _
      simpa [Worker.pending] using h.begun
    · show s.finished ++ (s.threads ++ [Worker.init]).flatMap Worker.working ~ _
      simpa [Worker.working] using h.finished
  | stop =>
    constructor
    · show s.begun ++ (notEmpty.broadcast s.threads).flatMap Worker.pending ~ _
      rw [CondVar.flatMap_broadcast pending_wake]
      exact h.begun
    · show s.finished ++ (notEmpty.broadcast s.threads).flatMap Worker.working ~ _
      rw [CondVar.flatMap_broadcast working_wake]
      exact h.finished
  | @put i sig p task threads hi hp hr hf hsig =>
    constructor
    · show s.begun ++ threads.flatMap Worker.pending ~ _
      rw [CondVar.flatMap_signal pending_wake hsig]
      exact h.begun
    · show s.finished ++ threads.flatMap Worker.working ~ _
      rw [CondVar.flatMap_signal working_wake hsig]
      exact h.finished
  | hop hw hh => exact h.goto hw hh.carries.1 hh.carries.2
  | waitEmpty hw hp | nothing hw hp =>
    obtain ⟨e, e'⟩ := Worker.carries_atMutex hp
    exact h.goto hw (by rw [e]; rfl) (by rw [e']; rfl)
  | @take w sig p task queue producers hw hp hq hsig =>
    obtain ⟨e, e'⟩ := Worker.carries_atMutex hp
    constructor
    · have hset := CondVar.flatMap_set_perm Worker.pending hw
        (b := .took (task.map fun t => (t, s.dequeued.length)))
      have hnew : Worker.pending (.took (task.map fun t => (t, s.dequeued.length))) =
          (task.map fun t => (t, s.dequeued.length)).toList := by cases task <;> rfl
      rw [e, List.nil_append, hnew] at hset
      show s.begun ++ (s.threads.set w _).flatMap Worker.pending ~
        jobs ((s.dequeued ++ [(w, task)]).map Prod.snd)
      rw [List.map_append, List.map_singleton, jobs_snoc, List.length_map]
      calc s.begun ++ (s.threads.set w _).flatMap Worker.pending
        _ ~ s.begun ++ (_ ++ s.threads.flatMap Worker.pending) := hset.append_left _
        _ ~ s.begun ++ (s.threads.flatMap Worker.pending ++ _) :=
          List.perm_append_comm.append_left _
        _ ~ s.begun ++ s.threads.flatMap Worker.pending ++ _ := by rw [List.append_assoc]
        _ ~ jobs (s.dequeued.map Prod.snd) ++ _ := h.begun.append_right _
    · show s.finished ++ (s.threads.set w _).flatMap Worker.working ~ _
      rw [CondVar.flatMap_set_same hw (by rw [e']; rfl)]
      exact h.finished
  | @call w t hw =>
    constructor
    · have hset := CondVar.flatMap_set_perm Worker.pending hw (b := .busy t)
      show s.begun ++ [t] ++ (s.threads.set w _).flatMap Worker.pending ~ _
      rw [List.append_assoc]
      exact (hset.append_left _).trans h.begun
    · have hset := CondVar.flatMap_set_perm Worker.working hw (b := .busy t)
      show s.finished ++ (s.threads.set w _).flatMap Worker.working ~ s.begun ++ [t]
      calc s.finished ++ (s.threads.set w _).flatMap Worker.working
        _ ~ s.finished ++ ([t] ++ s.threads.flatMap Worker.working) := hset.append_left _
        _ ~ s.finished ++ (s.threads.flatMap Worker.working ++ [t]) :=
          List.perm_append_comm.append_left _
        _ ~ s.finished ++ s.threads.flatMap Worker.working ++ [t] := by rw [List.append_assoc]
        _ ~ s.begun ++ [t] := h.finished.append_right _
  | @finish w t hw =>
    constructor
    · show s.begun ++ (s.threads.set w _).flatMap Worker.pending ~ _
      rw [CondVar.flatMap_set_same hw (b := .test) rfl]
      exact h.begun
    · have hset := CondVar.flatMap_set_perm Worker.working hw (b := .test)
      show s.finished ++ [t] ++ (s.threads.set w _).flatMap Worker.working ~ _
      rw [List.append_assoc]
      exact (hset.append_left _).trans h.finished

theorem worked_exec (h : Lts.exec step (new n host) acts = some s) : Worked s :=
  Lts.exec_keeps (fun _ _ _ hw hs => hw.step (step_move hs)) (worked_new n host) h

/-! ## From the critical section on -/

/-- Past `take`; with `running_` cleared the worker does not come back to it. -/
def Worker.leaving : Worker τ → Bool
  | .test | .took _ | .busy _ | .exited => true
  | _ => false

/-- How many of `len` threads `stop()` has joined. -/
def Owner.joined (len : Nat) : Owner → Nat
  | .joining k => k
  | .stopped => len
  | _ => 0

/-- `s1` is the state after the critical section of `stop()`. -/
structure Stopping (s1 s : ThreadPool τ) : Prop where
  running : s.running = false
  owner : (∃ k, s.owner = .joining k) ∨ s.owner = .stopped
  joined : ∀ i < s.owner.joined s.threads.length, s.threads[i]? = some .exited
  accepted : s.accepted = s1.accepted
  begun : s1.begun <+: s.begun
  late : ∃ more : List (Nat × Task τ), s.dequeued = s1.dequeued ++ more ∧
    (more.map Prod.fst).Nodup ∧
    ∀ w ∈ more.map Prod.fst, ∃ p, s.threads[w]? = some p ∧ p.leaving = true

theorem Hop.leaving (h : Hop false w a p q) (hp : p.leaving = true) : q.leaving = true := by
  cases h with
  | again hr => cases hr
  | enter | spurious => cases hp
  | leave | skip => rfl

theorem Hop.not_exited {r : Bool} (h : Hop r w a p q) : p ≠ .exited := by
  cases h <;> exact nofun

theorem Worker.not_exited_of_atMutex : ∀ {p : Worker τ}, p.atMutex = true →
    p ≠ .exited ∧ p.leaving = false
  | .lock, _ | .blocked true, _ => ⟨nofun, rfl⟩

/-- Worker `w` goes on from `p` to `q`; the others stay where they are. -/
theorem getElem?_set_or {l : List (Worker τ)} (hw : l[w]? = some p) {i : Nat} {x : Worker τ}
    (hi : l[i]? = some x) : (i = w ∧ x = p ∧ (l.set w q)[i]? = some q) ∨
      (i ≠ w ∧ (l.set w q)[i]? = some x) := by
  by_cases h : i = w
  · subst h
    rw [hi] at hw
    exact .inl ⟨rfl, Option.some.inj hw, List.getElem?_set_self (List.getElem?_eq_some_iff.mp hi).1⟩
  · exact .inr ⟨h, by rw [List.getElem?_set_ne (Ne.symm h), hi]⟩

theorem joined_set {o : Owner} {l : List (Worker τ)} (hw : l[w]? = some p) (hp : p ≠ .exited)
    (h : ∀ i < o.joined l.length, l[i]? = some .exited) :
    ∀ i < o.joined (l.set w q).length, (l.set w q)[i]? = some .exited := by
  intro i hi
  rw [List.length_set] at hi
  rcases getElem?_set_or hw (h i hi) with ⟨-, e, -⟩ | ⟨-, e⟩
  · exact absurd e.symm hp
  · exact e

/-- Worker `w` goes on without a task from the queue. -/
theorem Stopping.goto (h : Stopping s1 s) (hw : s.threads[w]? = some p) (hp : p ≠ .exited)
    (hq : p.leaving = true → q.leaving = true) {b f : List (τ × Nat)} (hb : s.begun <+: b) :
    Stopping s1 { s.goto w q with begun := b, finished := f } where
  running := h.running
  owner := h.owner
  joined := joined_set hw hp h.joined
  accepted := h.accepted
  begun := h.begun.trans hb
  late := by
    obtain ⟨more, hd, hn, hl⟩ := h.late
    refine ⟨more, hd, hn, fun v hv => ?_⟩
    obtain ⟨x, hx, hlv⟩ := hl v hv
    rcases getElem?_set_or (q := q) hw hx with ⟨rfl, rfl, e⟩ | ⟨-, e⟩
    · exact ⟨q, e, hq hlv⟩
    · exact ⟨x, e, hlv⟩

theorem Stopping.step (h : Stopping s1 s) (hs : Move s a s') : Stopping s1 s' := by
  have hr := h.running
  have up : ∀ {P : Prop}, s.running = true → P := fun h' => by rw [hr] at h'; cases h'
  have busy : s.owner = .constructed ∨ (∃ n, s.owner = .starting n) ∨ s.owner = .started →
      False := by
    rintro (e | ⟨n, e⟩ | e) <;> rcases h.owner with ⟨k, ho⟩ | ho <;> rw [e] at ho <;> cases ho
  cases hs with
  | setMaxQueueSize ho | start ho => exact (busy (.inl ho)).elim
  | spawn ho | started ho => exact (busy (.inr (.inl ⟨_, ho⟩))).elim
  | stop ho => exact (busy (.inr (.inr ho))).elim
  | @joinOne k ho hk =>
    refine ⟨hr, .inl ⟨k + 1, rfl⟩, fun i hi => ?_, h.accepted, h.begun, h.late⟩
    rcases Nat.lt_succ_iff_lt_or_eq.mp hi with hi | rfl
    · exact h.joined i (by rw [ho]; exact hi)
    · exact hk
  | @joined k ho hk =>
    refine ⟨hr, .inr rfl, fun i hi => ?_, h.accepted, h.begun, h.late⟩
    exact h.joined i (by rw [ho]; exact Nat.lt_of_lt_of_le hi hk)
  | direct => exact h
  | run | refuse | wakeProducer =>
    exact ⟨hr, h.owner, h.joined, h.accepted, h.begun, h.late⟩
  | waitFull _ _ hr' | put _ _ hr' | waitEmpty _ _ _ hr' => exact up hr'
  | hop hw hh => exact h.goto hw hh.not_exited (hr ▸ hh).leaving (List.prefix_refl _)
  | nothing hw hp =>
    exact h.goto hw (Worker.not_exited_of_atMutex hp).1 (fun _ => rfl) (List.prefix_refl _)
  | call hw => exact h.goto hw nofun (fun _ => rfl) (List.prefix_append _ _)
  | finish hw => exact h.goto hw nofun (fun _ => rfl) (List.prefix_refl _)
  | @take w sig p task queue producers hw hp hq hsig =>
    obtain ⟨hne, hstay⟩ := Worker.not_exited_of_atMutex hp
    refine ⟨hr, h.owner, joined_set hw hne h.joined, h.accepted, h.begun, ?_⟩
    obtain ⟨more, hd, hn, hl⟩ := h.late
    -- the worker is at the mutex, so it has not dequeued since `stop()`
    have hnew : w ∉ more.map Prod.fst := by
      intro hmem
      obtain ⟨x, hx, hlv⟩ := hl w hmem
      rw [hw] at hx
      rw [← Option.some.inj hx, hstay] at hlv
      cases hlv
    refine ⟨more ++ [(w, task)], ?_, ?_, fun v hv => ?_⟩
    · show s.dequeued ++ [(w, task)] = _
      rw [hd, List.append_assoc]
    · rw [List.map_append]
      exact List.nodup_append_comm.mpr (List.nodup_cons.mpr ⟨hnew, hn⟩)
    · rw [List.map_append] at hv
      rcases List.mem_append.mp hv with hv | hv
      · obtain ⟨x, hx, hlv⟩ := hl v hv
        rcases getElem?_set_or hw hx with ⟨hvw, -, -⟩ | ⟨-, e⟩
        · exact absurd (hvw ▸ hv) hnew
        · exact ⟨x, e, hlv⟩
      · obtain rfl := List.mem_singleton.mp hv
        exact ⟨_, List.getElem?_set_self (List.getElem?_eq_some_iff.mp hw).1, rfl⟩

theorem stopping_exec {post : List (Act τ)}
    (h1 : Lts.exec step (new n host) (acts ++ [.stop]) = some s1)
    (h2 : Lts.exec step s1 post = some s) : Stopping s1 s := by
  refine Lts.exec_keeps (fun _ _ _ h hs => h.step (step_move hs)) ?_ h2
  obtain ⟨u, -, hu⟩ := Lts.exec_append_some h1
  obtain ⟨v, hv, e⟩ := Lts.exec_cons hu
  cases e
  cases step_move hv with
  | stop => exact ⟨rfl, .inl ⟨0, rfl⟩, nofun, rfl, List.prefix_refl _, [], by simp, by simp, nofun⟩
  | hop _ hh => cases hh

theorem Stopping.exited (h : Stopping s1 s) (ho : s.owner = .stopped)
    (hw : s.threads[w]? = some p) : p = .exited := by
  have hlt := (List.getElem?_eq_some_iff.mp hw).1
  have := h.joined w (by rw [ho]; exact hlt)
  rw [hw] at this
  exact Option.some.inj this

/-- After `stop()` has returned no task begins. -/
theorem Stopping.quiet (h : Stopping s1 s) (ho : s.owner = .stopped) (hs : Move s a s') :
    s'.owner = .stopped ∧ s'.begun = s.begun := by
  cases hs with
  | setMaxQueueSize ho' | start ho' | spawn ho' | started ho' | stop ho' | joinOne ho'
  | joined ho' =>
    rw [ho] at ho'
    cases ho'
  | direct | run | waitFull | refuse | put | wakeProducer | hop | waitEmpty | nothing | take
  | finish => exact ⟨ho, rfl⟩
  | call hw => cases h.exited ho hw

theorem quiet_exec {post : List (Act τ)} (h : Stopping s1 s) (ho : s.owner = .stopped)
    (hp : Lts.exec step s post = some s') : s'.begun = s.begun := by
  have hkeep := Lts.exec_keeps
    (P := fun t : ThreadPool τ => Stopping s1 t ∧ t.owner = .stopped ∧ t.begun = s.begun)
    (fun t _ _ ht hs => ?_) ⟨h, ho, rfl⟩ hp
  · exact hkeep.2.2
  · obtain ⟨ht1, ht2, ht3⟩ := ht
    obtain ⟨ho', hb⟩ := ht1.quiet ht2 (step_move hs)
    exact ⟨ht1.step (step_move hs), ho', hb.trans ht3⟩

/-- When all threads have exited, the dequeued tasks were begun and finished, each once. -/
theorem Worked.done (h : Worked s) (hx : ∀ p ∈ s.threads, p = .exited) :
    s.begun ~ jobs (s.dequeued.map Prod.snd) ∧ s.finished ~ s.begun := by
  have none_pending : s.threads.flatMap Worker.pending = [] :=
    List.flatMap_eq_nil_iff.mpr fun p hp => by rw [hx p hp]; rfl
  have none_working : s.threads.flatMap Worker.working = [] :=
    List.flatMap_eq_nil_iff.mpr fun p hp => by rw [hx p hp]; rfl
  have hb := h.begun
  have hf := h.finished
  rw [none_pending, List.append_nil] at hb
  rw [none_working, List.append_nil] at hf
  exact ⟨hb, hf⟩

theorem exists_map_some :
    ∀ {l : List (Task τ)}, (∀ t ∈ l, t ≠ none) → ∃ done : List τ, l = done.map some
  | [], _ => ⟨[], rfl⟩
  | none :: _, h => absurd rfl (h none List.mem_cons_self)
  | some t :: l, h =>
    have ⟨done, e⟩ := exists_map_some fun x hx => h x (List.mem_cons_of_mem _ hx)
    ⟨t :: done, by rw [e]; rfl⟩

/-- **What `stop()` leaves behind.** `s1` is the state after its critical section and `s` one in
which it has returned. The tasks that workers executed are a prefix `done` of the accepted ones,
each was begun once and finished, and none begins in whatever follows. No worker removed more than
one task from the queue after the critical section, and nothing was accepted after it. If some
task had begun before, all tasks accepted up to it are finished. -/
theorem stop_executes_prefix (n : Nat) (host : Nat → Option Nat) (acts post : List (Act τ))
    (s1 s : ThreadPool τ)
    (h1 : Lts.exec step (new n host) (acts ++ [.stop]) = some s1)
    (h2 : Lts.exec step s1 post = some s) (ho : s.owner = .stopped)
    (hne : ∀ t ∈ s.accepted, t ≠ none) :
    (∃ done : List τ, done.map some <+: s.accepted ∧ s.dequeued.map Prod.snd = done.map some ∧
      s.begun ~ done.zipIdx ∧ s.finished ~ done.zipIdx ∧
      ∀ t ∈ s1.begun, ∀ i ≤ t.2, ∃ task, s.accepted[i]? = some (some task) ∧
        (task, i) ∈ s.finished) ∧
    (∀ more s', Lts.exec step s more = some s' → s'.begun = s.begun) ∧
    (∃ late : List (Nat × Task τ), s.dequeued = s1.dequeued ++ late ∧
      (late.map Prod.fst).Nodup) ∧
    ∀ more s', Lts.exec step s1 more = some s' → s'.accepted = s1.accepted := by
  have hstop := stopping_exec h1 h2
  have he : Lts.exec step (new n host) (acts ++ [.stop] ++ post) = some s := by
    rw [Lts.exec_append, h1, Option.bind_some, h2]
  have hfifo := (queued_exec he).fifo
  obtain ⟨done, hdone⟩ := exists_map_some (l := s.dequeued.map Prod.snd) fun t ht =>
    hne t (by rw [hfifo]; exact List.mem_append_left _ ht)
  have hprefix : done.map some <+: s.accepted := by
    rw [hfifo, ← hdone]
    exact List.prefix_append _ _
  obtain ⟨hbegun, hfinished⟩ := (worked_exec he).done fun p hp => by
    obtain ⟨w, hw⟩ := List.getElem?_of_mem hp
    exact hstop.exited ho hw
  rw [hdone, jobs_map_some] at hbegun
  have hfin := hfinished.trans hbegun
  obtain ⟨late, hlate, hnodup, -⟩ := hstop.late
  refine ⟨⟨done, hprefix, hdone, hbegun, hfin, fun t ht i hi => ?_⟩,
    fun more s' h => quiet_exec hstop ho h, ⟨late, hlate, hnodup⟩,
    fun more s' h => (stopping_exec h1 h).accepted⟩
  have hlt : t.2 < done.length := by
    have := List.snd_lt_of_mem_zipIdx (hbegun.mem_iff.mp (hstop.begun.subset ht))
    omega
  have hget : done[i]? = some done[i] := List.getElem?_eq_getElem (by omega)
  refine ⟨done[i], ?_, hfin.mem_iff.mpr (List.mem_zipIdx_iff_getElem?.mpr hget)⟩
  rw [List.prefix_iff_getElem?.mp hprefix i (by simpa using by omega)]
  simp

/-- Two workers at the mutex and three tasks; the first worker has begun the first task when
`stop()` is called. -/
def threeTasks : List (Act Nat) :=
  [.start 2, .spawn, .spawn, .spawn, .enter 0, .enter 1, .test 0, .test 1,
    .run 0 (some 7), .enqueue 0 none, .run 0 (some 8), .enqueue 0 none,
    .run 0 (some 9), .enqueue 0 none, .take 0 none, .call 0]

/-- The second worker takes one more task after the critical section of `stop()`. -/
def oneMoreTask : List (Act Nat) :=
  [.take 1 none, .call 1, .finish 0, .finish 1, .test 0, .test 1, .join, .join, .join]

theorem stop_executes_prefix_oneMoreTask :
    ∃ s1 s : ThreadPool Nat, Lts.exec step (new 1 fun _ => none) (threeTasks ++ [.stop]) = some s1 ∧
      Lts.exec step s1 oneMoreTask = some s ∧ s.owner = .stopped ∧
      s.accepted = [some 7, some 8, some 9] ∧ s1.begun = [(7, 0)] ∧ s.finished = [(7, 0), (8, 1)] ∧
      (∃ done : List Nat, done.map some <+: s.accepted ∧ s.dequeued.map Prod.snd = done.map some ∧
        s.begun ~ done.zipIdx ∧ s.finished ~ done.zipIdx ∧
        ∀ t ∈ s1.begun, ∀ i ≤ t.2, ∃ task, s.accepted[i]? = some (some task) ∧
          (task, i) ∈ s.finished) ∧
      (∀ more s', Lts.exec step s more = some s' → s'.begun = s.begun) ∧
      (∃ late : List (Nat × Task Nat), s.dequeued = s1.dequeued ++ late ∧
        (late.map Prod.fst).Nodup) ∧
      ∀ more s', Lts.exec step s1 more = some s' → s'.accepted = s1.accepted := by
  obtain ⟨s1, h1, hb1⟩ : ∃ s1 : ThreadPool Nat,
      Lts.exec step (new 1 fun _ => none) (threeTasks ++ [.stop]) = some s1 ∧ s1.begun = [(7, 0)] :=
    ⟨_, rfl, rfl⟩
  obtain ⟨s, he, ho, ha, hf⟩ : ∃ s : ThreadPool Nat,
      Lts.exec step (new 1 fun _ => none) (threeTasks ++ [.stop] ++ oneMoreTask) = some s ∧
      s.owner = .stopped ∧ s.accepted = [some 7, some 8, some 9] ∧
      s.finished = [(7, 0), (8, 1)] :=
    ⟨_, rfl, rfl, rfl, rfl⟩
  have h2 : Lts.exec step s1 oneMoreTask = some s := by
    rwa [Lts.exec_append, h1, Option.bind_some] at he
  exact ⟨s1, s, h1, h2, ho, ha, hb1, hf, stop_executes_prefix 1 _ threeTasks oneMoreTask s1 s h1 h2
    ho (by rw [ha]; decide)⟩

end ThreadPool

end MultiThreadLog
