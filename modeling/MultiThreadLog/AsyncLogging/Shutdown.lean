import MultiThreadLog.AsyncLogging.Stop

/-!
# The wake-up of `AsyncLogging::stop()`

`stop()` clears `running_` and notifies without the mutex, and the backend tests `running_` before
it locks. A notification that comes between that test and the wait finds nobody; when nothing is
queued, the backend then waits although it has been told to stop. `Heard` is the invariant of the
steps after a notification that came at another moment.
-/

namespace MultiThreadLog

open Bytes

namespace AsyncLogging

variable {s s' s1 : AsyncLogging} {a : Act}

/-- The backend is between its loop test and its wait, with nothing queued. -/
def Deaf (s : AsyncLogging) : Prop :=
  s.pc = .wait ∨ (s.pc = .lock ∨ s.pc = .check) ∧ s.buffers = []

structure Heard (s : AsyncLogging) : Prop where
  cleared : Cleared s
  listens : ¬ Deaf s
  awake : s.pc ≠ .blocked false

theorem cleared_exec {fresh1 fresh2 : Fresh} {acts : List Act}
    (h : Lts.exec step (new fresh1 fresh2) acts = some s) (ho : s.owner = .cleared) :
    Cleared s := by
  refine Lts.exec_keeps (P := fun s : AsyncLogging =>
    s.owner = .cleared ∨ s.owner = .notified ∨ s.owner = .joined → Cleared s)
    (fun t a t' ht hs ho' => ?_) (by rintro (h | h | h) <;> cases h) h (.inl ho)
  by_cases hc : t.owner = .cleared ∨ t.owner = .notified ∨ t.owner = .joined
  · exact ((ht hc).step (step_move hs)).1
  · cases step_move hs with
    | clearRunning => exact ⟨rfl, .inl rfl, nofun⟩
    | start | started | stop => rcases ho' with h | h | h <;> cases h
    | notify ho | join ho => simp [ho] at hc
    | _ => exact absurd ho' hc

theorem signalled_ne_blocked (pc : Pc) : pc.signalled ≠ .blocked false := by
  cases pc <;> exact nofun

/-- A notification moves no thread to another place. -/
theorem of_signalled {pc q : Pc} (h : pc.signalled = q) (hq : ∀ w, q ≠ .blocked w) : pc = q := by
  cases pc with
  | blocked w => exact absurd h.symm (hq true)
  | _ => exact h

theorem Deaf.of_signalled {b : List Buffer}
    (h : s.pc.signalled = .wait ∨ (s.pc.signalled = .lock ∨ s.pc.signalled = .check) ∧ b = []) :
    s.pc = .wait ∨ (s.pc = .lock ∨ s.pc = .check) ∧ b = [] := by
  rcases h with h | ⟨h | h, hb⟩
  · exact .inl (AsyncLogging.of_signalled h nofun)
  · exact .inr ⟨.inl (AsyncLogging.of_signalled h nofun), hb⟩
  · exact .inr ⟨.inr (AsyncLogging.of_signalled h nofun), hb⟩

/-- Without the flag the backend waits only if it was on its way to the wait before. -/
theorem Heard.step (h : Heard s) (hs : Move s a s') : Heard s' := by
  have hcleared := (h.cleared.step hs).1
  obtain ⟨⟨hr, -, -⟩, hl, ha⟩ := h
  cases hs with
  | put | started | stop | clearRunning | join => exact ⟨hcleared, hl, ha⟩
  | roll =>
    refine ⟨hcleared, fun hd => ?_, signalled_ne_blocked _⟩
    rcases Deaf.of_signalled hd with e | ⟨-, e⟩
    · exact hl (.inl e)
    · simp at e
  | notify => exact ⟨hcleared, fun hd => hl (Deaf.of_signalled hd), signalled_ne_blocked _⟩
  | countDown hp hr' | enter hp hr' =>
    rw [hr] at hr'
    cases hr'
  | lock hp =>
    refine ⟨hcleared, ?_, nofun⟩
    rintro (e | ⟨-, e⟩)
    · cases e
    · exact hl (.inr ⟨.inl hp, e⟩)
  | empty hp hq => exact absurd (.inr ⟨.inr hp, hq⟩) hl
  | wait hp => exact absurd (.inl hp) hl
  | _ =>
    refine ⟨hcleared, ?_, nofun⟩
    rintro (e | ⟨e | e, -⟩) <;> cases e

theorem heard_exec {post : List Act} (hc : Cleared s1) (hl : ¬ Deaf s1)
    (h : Lts.exec step s1 (.notify :: post) = some s) : Heard s := by
  obtain ⟨u, hu, hpost⟩ := Lts.exec_cons h
  refine Lts.exec_keeps (fun _ _ _ ht hs => ht.step (step_move hs)) ?_ hpost
  cases step_move hu with
  | notify =>
    exact ⟨(hc.step (step_move hu)).1, fun hd => hl (Deaf.of_signalled hd), signalled_ne_blocked _⟩

/-- The steps of a backend that does not hear `notify()`. -/
def sleepOn : Pc → List Act
  | .lock => [.notify, .lock, .check, .wait]
  | .check => [.notify, .check, .wait]
  | _ => [.notify, .wait]

theorem deaf_sleeps (ho : s1.owner = .cleared) (hd : Deaf s1) :
    ∃ s, Lts.exec step s1 (sleepOn s1.pc) = some s ∧ s.pc = .blocked false := by
  rcases hd with hp | ⟨hp | hp, hb⟩
  · refine ⟨{ s1 with owner := .notified, pc := .blocked false }, ?_, rfl⟩
    simp [hp, sleepOn, Lts.exec, step, notify, signal, ho, wait, Pc.signalled]
  · refine ⟨{ s1 with owner := .notified, pc := .blocked false }, ?_, rfl⟩
    simp [hp, sleepOn, Lts.exec, step, notify, signal, ho, lock, check, hb, wait, Pc.signalled]
  · refine ⟨{ s1 with owner := .notified, pc := .blocked false }, ?_, rfl⟩
    simp [hp, sleepOn, Lts.exec, step, notify, signal, ho, check, hb, wait, Pc.signalled]

/-- **When the shutdown signal is heard.** `s1` is a state in which `stop()` has cleared `running_`
and is about to notify. The backend blocks without a pending wake-up in no state that can follow
exactly if it is not, at that moment, on its way from the loop test to the wait with `buffers_`
empty. -/
theorem notify_heard_iff (fresh1 fresh2 : Fresh) (pre : List Act) (s1 : AsyncLogging)
    (h1 : Lts.exec step (new fresh1 fresh2) pre = some s1) (ho : s1.owner = .cleared) :
    (∀ post s, Lts.exec step s1 (.notify :: post) = some s → s.pc ≠ .blocked false) ↔
      ¬ (s1.pc = .wait ∨ (s1.pc = .lock ∨ s1.pc = .check) ∧ s1.buffers = []) := by
  refine ⟨fun h hd => ?_, fun hl post s h => (heard_exec (cleared_exec h1 ho) hl h).awake⟩
  obtain ⟨s, he, hp⟩ := deaf_sleeps ho hd
  have hcons : ∃ post, sleepOn s1.pc = .notify :: post := by
    unfold sleepOn
    split <;> exact ⟨_, rfl⟩
  obtain ⟨post, e⟩ := hcons
  rw [e] at he
  exact h post s he hp

/-- The backend has passed its loop test when `stop()` clears `running_`. -/
def clearedLate : List Act :=
  [.start, .countDown, .started, .setup ⟨2, fun _ => 7⟩ ⟨3, fun _ => 7⟩, .test, .stop,
    .clearRunning]

/-- `stop()` has notified and joins, and the backend blocks without a pending wake-up. -/
theorem notify_lost :
    (Lts.exec step (new ⟨0, fun _ => 7⟩ ⟨1, fun _ => 7⟩)
      (clearedLate ++ [.notify, .lock, .check, .wait])).map
      (fun s => (s.running, s.owner, s.pc)) = some (false, .notified, .blocked false) :=
  rfl

theorem notify_heard_iff_clearedLate :
    ∃ s1, Lts.exec step (new ⟨0, fun _ => 7⟩ ⟨1, fun _ => 7⟩) clearedLate = some s1 ∧
      s1.owner = .cleared ∧
      ((∀ post s, Lts.exec step s1 (.notify :: post) = some s → s.pc ≠ .blocked false) ↔
        ¬ (s1.pc = .wait ∨ (s1.pc = .lock ∨ s1.pc = .check) ∧ s1.buffers = [])) := by
  obtain ⟨s1, he, ho⟩ : ∃ s1, Lts.exec step (new ⟨0, fun _ => 7⟩ ⟨1, fun _ => 7⟩) clearedLate =
      some s1 ∧ s1.owner = .cleared := ⟨_, rfl, rfl⟩
  exact ⟨s1, he, ho, notify_heard_iff _ _ clearedLate s1 he ho⟩

end AsyncLogging

end MultiThreadLog
