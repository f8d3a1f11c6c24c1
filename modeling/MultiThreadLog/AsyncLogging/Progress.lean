import MultiThreadLog.AsyncLogging.Shutdown
import MultiThreadLog.Lib.Countdown

/-!
# How long `stop()` takes

After `running_` is cleared the backend ends its iteration and leaves the loop at the next test. No
branch of it waits for another thread for good, since the wait has a time limit, and the overload
drop bounds the batch it writes. `left` counts the steps that the backend and the owner have still
to make; the producers, who may append as much as they like meanwhile, do not raise it. `Handshake`
is what `start()` establishes: it returns after the count-down of `latch_`, so `stop()` never meets
a backend before its first statement, and the `assert` there holds.
-/

namespace MultiThreadLog

open Bytes

def Act.ofBackend : Act → Bool
  | .countDown | .setup .. | .test | .lock | .check | .wait | .wake | .swap | .trim _ | .write
  | .resize | .recycle1 | .recycle2 | .clear => true
  | _ => false

def Act.ofOwner : Act → Bool
  | .start | .started | .stop | .clearRunning | .notify | .join => true
  | _ => false

/-- The steps the owner has still to make in `stop()` when `running_` is cleared. -/
def Owner.left : Owner → Nat
  | .cleared => 2
  | .notified => 1
  | _ => 0

namespace AsyncLogging

variable {s s' : AsyncLogging} {a : Act}

/-! ## `start()` -/

/-- `latch_` counts the statements up to `countDown()`. -/
structure Handshake (s : AsyncLogging) : Prop where
  latch : s.latch = if s.pc = .unstarted ∨ s.pc = .entry then 1 else 0
  unstarted : s.pc = .unstarted → s.owner = .constructed
  entry : s.pc = .entry → s.running = true ∧ s.owner = .starting
  passed : s.owner ≠ .constructed → s.owner ≠ .starting → s.latch = 0

@[simp] theorem signalled_unstarted (pc : Pc) : pc.signalled = .unstarted ↔ pc = .unstarted := by
  cases pc <;> simp [Pc.signalled]

@[simp] theorem signalled_entry (pc : Pc) : pc.signalled = .entry ↔ pc = .entry := by
  cases pc <;> simp [Pc.signalled]

theorem Handshake.signalled (h : Handshake s) {b : List Buffer} {c n : Option Buffer} {o : Owner}
    (ho : s.owner = .constructed → o = .constructed) (hs : s.owner = .starting → o = .starting)
    (hp : o ≠ .constructed → o ≠ .starting → s.latch = 0) :
    Handshake { s with
      buffers := b, nextBuffer := n, currentBuffer := c, pc := s.pc.signalled, owner := o } where
  latch := by
    simp only [signalled_unstarted, signalled_entry]
    exact h.latch
  unstarted hu := ho (h.unstarted ((signalled_unstarted _).mp hu))
  entry he := by
    obtain ⟨hr, ho'⟩ := h.entry ((signalled_entry _).mp he)
    exact ⟨hr, hs ho'⟩
  passed := hp

theorem handshake_new (fresh1 fresh2 : Fresh) : Handshake (new fresh1 fresh2) :=
  ⟨rfl, fun _ => rfl, nofun, fun h => absurd rfl h⟩

theorem Handshake.step (h : Handshake s) (hs : Move s a s') : Handshake s' := by
  have hl := h.latch
  cases hs with
  | put => exact ⟨h.latch, h.unstarted, h.entry, h.passed⟩
  | roll => exact h.signalled id id h.passed
  | start ho hp =>
    refine ⟨?_, nofun, fun _ => ⟨rfl, rfl⟩, fun _ hne => absurd rfl hne⟩
    simpa [hp] using hl
  | started ho hl0 =>
    have hp : s.pc ≠ .unstarted ∧ s.pc ≠ .entry := by
      rw [hl0] at hl
      refine ⟨fun hp => ?_, fun hp => ?_⟩ <;> simp [hp] at hl
    exact ⟨h.latch, fun hu => absurd hu hp.1, fun he => absurd he hp.2, fun _ _ => hl0⟩
  | stop ho | clearRunning ho =>
    have hl0 : s.latch = 0 := h.passed (by simp [ho]) (by simp [ho])
    have hp : s.pc ≠ .unstarted ∧ s.pc ≠ .entry := by
      rw [hl0] at hl
      refine ⟨fun hp => ?_, fun hp => ?_⟩ <;> simp [hp] at hl
    exact ⟨h.latch, fun hu => absurd hu hp.1, fun he => absurd he hp.2, fun _ _ => hl0⟩
  | notify ho =>
    refine h.signalled (fun hc => ?_) (fun hc => ?_) fun _ _ =>
      h.passed (by simp [ho]) (by simp [ho])
    · rw [ho] at hc
      cases hc
    · rw [ho] at hc
      cases hc
  | join ho hp =>
    have hl0 : s.latch = 0 := h.passed (by simp [ho]) (by simp [ho])
    have hu : s.pc ≠ .unstarted := by simp [hp]
    have he : s.pc ≠ .entry := by simp [hp]
    exact ⟨h.latch, fun h => absurd h hu, fun h => absurd h he, fun _ _ => hl0⟩
  | countDown hp hr =>
    have hl1 : s.latch = 1 := by simpa [hp] using hl
    exact ⟨by simp [hl1], nofun, nofun, fun _ _ => by simp [hl1]⟩
  | setup hp | enter hp | exit hp | lock hp | empty hp | nonempty hp | wait hp | wake hp | swap hp
  | drop hp | keep hp | write hp | written hp | resize hp | has1 hp | recycle1 hp | has2 hp
  | recycle2 hp | clear hp =>
    exact ⟨by simpa [hp] using hl, nofun, nofun, h.passed⟩

theorem handshake_exec {fresh1 fresh2 : Fresh} {acts : List Act}
    (h : Lts.exec step (new fresh1 fresh2) acts = some s) : Handshake s :=
  Lts.exec_keeps (fun _ _ _ hi hs => hi.step (step_move hs)) (handshake_new fresh1 fresh2) h

/-! ## The backend can step -/

theorem exists_above (l : List Nat) : ∃ n, ∀ m ∈ l, m < n := by
  induction l with
  | nil => exact ⟨0, nofun⟩
  | cons a l ih =>
    obtain ⟨n, hn⟩ := ih
    refine ⟨max (a + 1) n, fun m hm => ?_⟩
    rcases List.mem_cons.mp hm with rfl | hm
    · omega
    · have := hn m hm
      omega

theorem setup_enabled (hp : s.pc = .setup) :
    ∃ fresh1 fresh2, (s.setup fresh1 fresh2).isSome := by
  obtain ⟨n, hn⟩ := exists_above (s.live.map Buffer.addr)
  have h1 : s.alloc ⟨n, fun _ => 0⟩ = some (Buffer.new ⟨n, fun _ => 0⟩) :=
    if_neg fun hmem => Nat.lt_irrefl _ (hn n hmem)
  obtain ⟨k, hk⟩ := exists_above (({ s with
    newBuffer1 := some (Buffer.new ⟨n, fun _ => 0⟩).bzero } : AsyncLogging).live.map Buffer.addr)
  have h2 : (alloc { s with newBuffer1 := some (Buffer.new ⟨n, fun _ => 0⟩).bzero }
      ⟨k, fun _ => 0⟩).isSome := by
    rw [alloc, if_neg fun hmem => Nat.lt_irrefl _ (hk k hmem)]
    rfl
  exact ⟨⟨n, fun _ => 0⟩, ⟨k, fun _ => 0⟩, by simpa [setup, hp, h1] using h2⟩

/-- **No branch of the backend is stuck.** -/
theorem backend_enabled (hw : WF s) (hh : Handshake s) (hu : s.pc ≠ .unstarted)
    (he : s.pc ≠ .exited) : ∃ a, a.ofBackend = true ∧ (s.step a).isSome := by
  have hl := hw.locals
  cases hp : s.pc with
  | unstarted => exact absurd hp hu
  | exited => exact absurd hp he
  | entry => exact ⟨.countDown, rfl, by simp [step, countDown, hp, (hh.entry hp).1]⟩
  | setup =>
    obtain ⟨fresh1, fresh2, h⟩ := setup_enabled hp
    exact ⟨.setup fresh1 fresh2, rfl, h⟩
  | test => exact ⟨.test, rfl, by cases hr : s.running <;> simp [step, test, hp, hr]⟩
  | lock => exact ⟨.lock, rfl, by simp [step, lock, hp]⟩
  | check =>
    exact ⟨.check, rfl, by cases hb : s.buffers.isEmpty <;> simp [step, check, hp, hb]⟩
  | wait => exact ⟨.wait, rfl, by simp [step, wait, hp]⟩
  | blocked w =>
    -- the wait ends at the latest when its time is over
    exact ⟨.wake, rfl, by simp [step, wake, hp]⟩
  | swap =>
    obtain ⟨b, hb⟩ := hw.current
    exact ⟨.swap, rfl, by simp [step, swap, hp, hb]⟩
  | trim =>
    simp only [Locals, hp] at hl
    refine ⟨.trim ⟨0⟩, rfl, ?_⟩
    by_cases hlen : 25 < s.buffersToWrite.length <;> simp [step, trim, hp, hl.2.1, hlen]
  | write k =>
    exact ⟨.write, rfl, by cases hb : s.buffersToWrite[k]? <;> simp [step, write, hp, hb]⟩
  | resize => exact ⟨.resize, rfl, by simp [step, resize, hp]⟩
  | recycle1 =>
    simp only [Locals, hp] at hl
    exact ⟨.recycle1, rfl, by simp [step, recycle1, hp, hl.1, hl.2.1]⟩
  | recycle2 =>
    simp only [Locals, hp] at hl
    refine ⟨.recycle2, rfl, ?_⟩
    rcases hl.2 with ⟨b, hb, -⟩ | ⟨hnone, hlen⟩
    · simp [step, recycle2, hp, hb]
    · simp [step, recycle2, hp, hnone, List.length_pos_iff.mp hlen]
  | clear => exact ⟨.clear, rfl, by simp [step, clear, hp]⟩

/-! ## The end -/

/-- The steps the backend has still to make when `running_` is cleared. -/
def toExit (s : AsyncLogging) : Nat :=
  match s.pc with
  | .unstarted | .entry | .exited => 0
  | .test => 1
  | .setup | .clear => 2
  | .recycle2 => 3
  | .recycle1 => 4
  | .resize => 5
  | .write k => 6 + (s.buffersToWrite.length - k)
  | .trim => 32
  | .swap => 33
  | .blocked _ => 34
  | .wait => 35
  | .check => 36
  | .lock => 37

def left (s : AsyncLogging) : Nat := s.toExit + s.owner.left

theorem toExit_signalled (s : AsyncLogging) (b : List Buffer) (c n : Option Buffer) (o : Owner) :
    toExit { s with
      buffers := b, nextBuffer := n, currentBuffer := c, pc := s.pc.signalled, owner := o } =
      s.toExit := by
  cases hp : s.pc <;> simp [toExit, Pc.signalled, hp]

/-- **One step** after `running_` was cleared. -/
theorem left_step (h : Cleared s) (hs : Move s a s') :
    if a.ofBackend || a.ofOwner then s'.left < s.left else s'.left ≤ s.left := by
  obtain ⟨hr, ho, -⟩ := h
  cases hs with
  | put => exact Nat.le_refl _
  | roll => exact Nat.le_of_eq (congrArg (· + s.owner.left) (toExit_signalled s ..))
  | start ho' | started ho' | stop ho' | clearRunning ho' =>
    rw [ho'] at ho
    rcases ho with ho | ho | ho <;> cases ho
  | notify ho' =>
    have e := toExit_signalled s s.buffers s.currentBuffer s.nextBuffer .notified
    show toExit _ + Owner.left .notified < s.toExit + s.owner.left
    rw [e, ho']
    exact Nat.lt_succ_self _
  | join ho' hp =>
    show s.toExit + Owner.left .joined < s.toExit + s.owner.left
    rw [ho']
    exact Nat.lt_succ_self _
  | countDown hp hr' | enter hp hr' =>
    rw [hr] at hr'
    cases hr'
  | write hp hb =>
    obtain ⟨hk, -⟩ := List.getElem?_eq_some_iff.mp hb
    simp [left, toExit, hp, Act.ofBackend]
    omega
  | drop hp hlen =>
    simp [left, toExit, hp, Act.ofBackend]
    omega
  | keep hp hne hlen =>
    simp [left, toExit, hp, Act.ofBackend]
    omega
  | written hp hk =>
    simp [left, toExit, hp, Act.ofBackend]
    omega
  | setup hp | exit hp | lock hp | empty hp | nonempty hp | wait hp | wake hp | swap hp
  | resize hp | has1 hp | recycle1 hp | has2 hp | recycle2 hp | clear hp =>
    simp [left, toExit, hp, Act.ofBackend]

theorem left_countdown : Lts.Countdown step Cleared
    (fun a => a.ofBackend || a.ofOwner) (fun _ _ => False) left where
  keeps hc hs _ := (hc.step (step_move hs)).1
  lowers hc hs _ hp := by
    have := left_step hc (step_move hs)
    rwa [if_pos hp] at this
  raisesNot hc hs _ hp := by
    have := left_step hc (step_move hs)
    rwa [if_neg (by simpa using hp)] at this

/-- The overload drop leaves at most 25 buffers to write. -/
def Bounded (s : AsyncLogging) : Prop := ∀ k, s.pc = .write k → s.buffersToWrite.length ≤ 25

theorem Bounded.step (h : Bounded s) (hs : Move s a s') : Bounded s' := by
  cases hs with
  | put | started | stop | clearRunning | join => exact h
  | roll | notify => exact fun k hk => h k (of_signalled hk nofun)
  | drop hp hlen =>
    intro k _
    show (s.buffersToWrite.take 2).length ≤ 25
    rw [List.length_take]
    omega
  | keep hp hne hlen => exact fun _ _ => hlen
  | write hp hb => exact fun _ _ => h _ hp
  | _ => exact nofun

theorem bounded_exec {fresh1 fresh2 : Fresh} {acts : List Act}
    (h : Lts.exec step (new fresh1 fresh2) acts = some s) : Bounded s :=
  Lts.exec_keeps (fun _ _ _ hi hs => hi.step (step_move hs)) (fun k hp => by cases hp) h

theorem left_le (h : Bounded s) : s.left ≤ 39 := by
  have hexit : s.toExit ≤ 37 := by
    unfold toExit
    split <;> try omega
    rename_i k hp
    have := h k hp
    omega
  have howner : s.owner.left ≤ 2 := by cases s.owner <;> decide
  show s.toExit + s.owner.left ≤ 39
  omega

/-- **`stop()` returns.** After `running_` is cleared the backend and the owner make at most 39
steps in any run, whatever the producers do, and until `stop()` has returned one of the two can
step. -/
theorem stop_returns (fresh1 fresh2 : Fresh) (hne : fresh1.addr ≠ fresh2.addr)
    (pre post : List Act) (s1 s : AsyncLogging)
    (h1 : Lts.exec step (new fresh1 fresh2) pre = some s1) (ho : s1.owner = .cleared)
    (h2 : Lts.exec step s1 post = some s) :
    post.countP (fun a => a.ofBackend || a.ofOwner) ≤ 39 ∧
    (s.owner ≠ .joined → ∃ a, (a.ofBackend || a.ofOwner) = true ∧ (s.step a).isSome) := by
  have hcleared := cleared_exec h1 ho
  have he : Lts.exec step (new fresh1 fresh2) (pre ++ post) = some s := by
    rw [Lts.exec_append, h1, Option.bind_some, h2]
  refine ⟨?_, fun hj => ?_⟩
  · have hcount := left_countdown.countP_le hcleared h2
    have hle := left_le (bounded_exec h1)
    omega
  · have hc : Cleared s :=
      Lts.exec_keeps (fun _ _ _ hi hs => (hi.step (step_move hs)).1) hcleared h2
    have hh := handshake_exec he
    rcases hc.owner with ho' | ho' | ho'
    · exact ⟨.notify, rfl, by simp [step, notify, ho']⟩
    · by_cases hx : s.pc = .exited
      · exact ⟨.join, rfl, by simp [step, join, ho', hx]⟩
      · have hu : s.pc ≠ .unstarted := fun hp => by
          rw [hh.unstarted hp] at ho'
          cases ho'
        obtain ⟨a, ha, h⟩ := backend_enabled (wf_exec (wf_new hne) he) hh hu hx
        exact ⟨a, by rw [ha, Bool.true_or], h⟩
    · exact absurd ho' hj

/-- A message comes while the owner waits for the backend. -/
theorem stop_returns_clearedLate :
    ∃ s1 s, Lts.exec step (new ⟨0, fun _ => 7⟩ ⟨1, fun _ => 7⟩) clearedLate = some s1 ∧
      s1.owner = .cleared ∧
      Lts.exec step s1 [.notify, .append ⟨ascii "x", 1⟩ ⟨4, fun _ => 7⟩, .lock, .check] = some s ∧
      s.owner ≠ .joined ∧
      (List.countP (fun a : Act => a.ofBackend || a.ofOwner)
          [.notify, .append ⟨ascii "x", 1⟩ ⟨4, fun _ => 7⟩, .lock, .check] ≤ 39 ∧
        (s.owner ≠ .joined → ∃ a, (a.ofBackend || a.ofOwner) = true ∧ (s.step a).isSome)) := by
  obtain ⟨s, he, ho'⟩ : ∃ s, Lts.exec step (new ⟨0, fun _ => 7⟩ ⟨1, fun _ => 7⟩)
      (clearedLate ++ [.notify, .append ⟨ascii "x", 1⟩ ⟨4, fun _ => 7⟩, .lock, .check]) = some s ∧
        s.owner = .notified := ⟨_, rfl, rfl⟩
  obtain ⟨s1, h1, h2⟩ := Lts.exec_append_some he
  have ho : s1.owner = .cleared := by
    have e : (Lts.exec step (new ⟨0, fun _ => 7⟩ ⟨1, fun _ => 7⟩) clearedLate).map
      AsyncLogging.owner = some .cleared := rfl
    rw [h1] at e
    exact Option.some_inj.mp e
  exact ⟨s1, s, h1, ho, h2, by rw [ho']; nofun, stop_returns ⟨0, fun _ => 7⟩ ⟨1, fun _ => 7⟩
    (by decide) clearedLate _ s1 s h1 ho h2⟩

end AsyncLogging

end MultiThreadLog
