import MultiThreadLog.AsyncLogging.Moves

/-!
# The buffers of `AsyncLogging`

`WF` is what the two threads rely on. Producers need a current buffer and, when the spare one is
gone, may allocate; the backend needs two empty buffers at the head of every iteration and gets
them back from the batch it wrote. The link between the threads is `queued`: without a spare
buffer something was queued since the last swap, so a swap that gives `newBuffer2` away takes at
least two buffers, and the recycling step can pop two.
-/

namespace MultiThreadLog

namespace AsyncLogging

/-- An empty buffer is held. -/
def Spare (o : Option Buffer) : Prop := ∃ b, o = some b ∧ b.length = 0

/-- The local variables of the backend, by its position. -/
def Locals (s : AsyncLogging) : Prop :=
  match s.pc with
  | .unstarted | .entry | .setup | .exited =>
    s.newBuffer1 = none ∧ s.newBuffer2 = none ∧ s.buffersToWrite = []
  | .test | .lock | .check | .wait | .blocked _ | .swap =>
    Spare s.newBuffer1 ∧ Spare s.newBuffer2 ∧ s.buffersToWrite = []
  | .trim | .write _ | .resize | .recycle1 =>
    s.newBuffer1 = none ∧ s.buffersToWrite ≠ [] ∧
      (Spare s.newBuffer2 ∨ s.newBuffer2 = none ∧ 2 ≤ s.buffersToWrite.length)
  | .recycle2 =>
    Spare s.newBuffer1 ∧
      (Spare s.newBuffer2 ∨ s.newBuffer2 = none ∧ 1 ≤ s.buffersToWrite.length)
  | .clear => Spare s.newBuffer1 ∧ Spare s.newBuffer2

structure WF (s : AsyncLogging) : Prop where
  current : ∃ b, s.currentBuffer = some b
  next : s.nextBuffer = none ∨ Spare s.nextBuffer
  queued : s.nextBuffer = none → s.buffers ≠ []
  distinct : (s.live.map Buffer.addr).Nodup
  locals : s.Locals

/-! ## Counting addresses -/

/-- How often the address `a` occurs among the buffers `l`. -/
def held (a : Nat) (l : List Buffer) : Nat := (l.map Buffer.addr).count a

variable {a : Nat} {l l' : List Buffer} {b : Buffer}

@[simp] theorem held_nil : held a [] = 0 := rfl

@[simp] theorem held_append : held a (l ++ l') = held a l + held a l' := by
  simp [held]

theorem held_take_le (n : Nat) : held a (l.take n) ≤ held a l :=
  ((List.take_sublist n l).map _).count_le a

theorem held_singleton_congr {b b' : Buffer} (h : b'.addr = b.addr) : held a [b'] = held a [b] := by
  simp [held, h]

@[simp] theorem held_reset : held a [b.reset] = held a [b] := held_singleton_congr rfl

@[simp] theorem held_bzero : held a [b.bzero] = held a [b] := held_singleton_congr rfl

theorem held_buffer_append {b' : Buffer} {logline : List UInt8} {len : Nat}
    (h : b.append logline len = some b') : held a [b'] = held a [b] := by
  obtain ⟨buf, -, e⟩ := Option.map_eq_some_iff.mp h
  exact held_singleton_congr (by rw [← e])

theorem held_live (s : AsyncLogging) : held a s.live =
    held a s.currentBuffer.toList + held a s.nextBuffer.toList + held a s.buffers +
      held a s.buffersToWrite + held a s.newBuffer1.toList + held a s.newBuffer2.toList := by
  simp only [live, held_append]

theorem nodup_iff_held (s : AsyncLogging) :
    (s.live.map Buffer.addr).Nodup ↔ ∀ a, held a s.live ≤ 1 :=
  List.nodup_iff_count_le_one

theorem held_alloc {s : AsyncLogging} {m : Fresh} (h : s.alloc m = some b) :
    b = Buffer.new m ∧ held a s.live + held a [b] ≤ max 1 (held a s.live) := by
  unfold alloc at h
  split at h
  · cases h
  · rename_i hm
    cases h
    refine ⟨rfl, ?_⟩
    by_cases ha : a = m.addr
    · subst ha
      have h0 : held m.addr s.live = 0 := List.count_eq_zero.mpr hm
      rw [h0]
      simp [held, Buffer.new]
    · have h0 : held a [Buffer.new m] = 0 :=
        List.count_eq_zero.mpr (by simpa [Buffer.new] using ha)
      omega

/-! ## The steps -/

variable {s s' : AsyncLogging}

/-- A step that moves no buffer. -/
theorem WF.moved (h : WF s) {r : Bool} {n : Nat} {o : List Call} {p : Pc} {w : Owner}
    (hl : Locals { s with pc := p }) :
    WF { s with running := r, latch := n, output := o, pc := p, owner := w } :=
  ⟨h.current, h.next, h.queued, h.distinct, hl⟩

theorem locals_signalled (h : Locals s) : Locals { s with pc := s.pc.signalled } := by
  unfold Pc.signalled
  split
  · rename_i w e
    simp only [Locals, e] at h
    exact h
  · exact h

theorem WF.held_le (h : WF s) (a : Nat) : held a s.currentBuffer.toList +
    held a s.nextBuffer.toList + held a s.buffers + held a s.buffersToWrite +
      held a s.newBuffer1.toList + held a s.newBuffer2.toList ≤ 1 := by
  rw [← held_live]
  exact (nodup_iff_held s).mp h.distinct a

/-- The addresses stay distinct when none occurs more often. -/
theorem distinct_of_le (h : ∀ a, held a s'.currentBuffer.toList +
    held a s'.nextBuffer.toList + held a s'.buffers + held a s'.buffersToWrite +
      held a s'.newBuffer1.toList + held a s'.newBuffer2.toList ≤ 1) :
    (s'.live.map Buffer.addr).Nodup := by
  rw [nodup_iff_held]
  intro a
  rw [held_live]
  exact h a

theorem held_getLast {l : List Buffer} {b : Buffer} (h : l.getLast? = some b) (a : Nat) :
    held a l = held a l.dropLast + held a [b] := by
  rw [← held_append, List.dropLast_append_getLast? b h]

/-- Both the overload drop and the recycling keep the first two buffers of the batch. -/
theorem WF.take_two (h : WF s) (hl : Locals { s with pc := .resize }) (o : List Call) (p : Pc)
    (hp : Locals { s with buffersToWrite := s.buffersToWrite.take 2, pc := p } =
      Locals { s with buffersToWrite := s.buffersToWrite.take 2, pc := .resize }) :
    WF { s with buffersToWrite := s.buffersToWrite.take 2, output := o, pc := p } := by
  obtain ⟨e1, e2, e3⟩ := hl
  refine ⟨h.current, h.next, h.queued, distinct_of_le fun a => ?_, ?_⟩
  · have hd := h.held_le a
    have ht := held_take_le (a := a) (l := s.buffersToWrite) 2
    show held a s.currentBuffer.toList + held a s.nextBuffer.toList + held a s.buffers +
      held a (s.buffersToWrite.take 2) + held a s.newBuffer1.toList +
        held a s.newBuffer2.toList ≤ 1
    omega
  · show Locals { s with buffersToWrite := s.buffersToWrite.take 2, pc := p }
    rw [hp]
    refine ⟨e1, by simpa using e2, ?_⟩
    rcases e3 with e3 | ⟨e3, hle⟩
    · exact .inl e3
    · have hle' : 2 ≤ s.buffersToWrite.length := hle
      exact .inr ⟨e3, by simp only [List.length_take]; omega⟩

/-- **One step** keeps the invariant. -/
theorem WF.step {a : Act} (h : WF s) (hs : Move s a s') : WF s' := by
  have hl := h.locals
  cases hs with
  | put hm hb hlen happ =>
    refine ⟨⟨_, rfl⟩, h.next, h.queued, distinct_of_le fun a => ?_, h.locals⟩
    have hd := h.held_le a
    simp only [hb, Option.toList_some, held_buffer_append happ] at hd ⊢
    exact hd
  | @roll m fresh b c c' hm hb hlen hc happ =>
    refine ⟨⟨_, rfl⟩, .inl rfl, fun _ => by simp, distinct_of_le fun a => ?_,
      locals_signalled (s := { s with
        buffers := s.buffers ++ [b], nextBuffer := none, currentBuffer := some c' }) h.locals⟩
    have hd := h.held_le a
    simp only [hb, Option.toList_some, Option.toList_none, held_nil, held_append,
      held_buffer_append happ] at hd ⊢
    rcases hc with hn | ⟨hn, halloc⟩
    · rw [hn, Option.toList_some] at hd
      omega
    · have hfresh := (held_alloc (a := a) halloc).2
      rw [held_live] at hfresh
      simp only [hb, hn, Option.toList_some, Option.toList_none, held_nil] at hd hfresh
      omega
  | start ho hp => exact h.moved (by simpa only [Locals, hp] using hl)
  | countDown hp hr => exact h.moved (by simpa only [Locals, hp] using hl)
  | started | stop | clearRunning | join => exact h.moved hl
  | notify ho => exact h.moved (locals_signalled hl)
  | @setup fresh1 fresh2 b1 b2 hp h1 h2 =>
    simp only [Locals, hp] at hl
    obtain ⟨e1, e2, e3⟩ := hl
    refine ⟨h.current, h.next, h.queued, distinct_of_le fun a => ?_, ⟨_, rfl, rfl⟩, ⟨_, rfl, rfl⟩,
      e3⟩
    have hd := h.held_le a
    have hf1 := (held_alloc (a := a) h1).2
    have hf2 := (held_alloc (a := a) h2).2
    rw [held_live] at hf1 hf2
    simp only [e1, e2, Option.toList_some, Option.toList_none, held_nil, held_bzero] at hd hf1 hf2 ⊢
    omega
  | enter hp | lock hp | empty hp | nonempty hp | wait hp | wake hp | keep hp | write hp
  | written hp =>
    exact h.moved (by simpa only [Locals, hp] using hl)
  | exit hp hr =>
    refine ⟨h.current, h.next, h.queued, distinct_of_le fun a => ?_, rfl, rfl, rfl⟩
    have hd := h.held_le a
    simp only [Option.toList_none, held_nil]
    omega
  | @swap b hp hb =>
    simp only [Locals, hp] at hl
    obtain ⟨⟨b1, e1, l1⟩, ⟨b2, e2, l2⟩, e3⟩ := hl
    have hd := h.held_le
    simp only [hb, e1, e2, e3, Option.toList_some, held_nil] at hd
    rcases h.next with hn | ⟨c, hn, hc⟩
    · -- `newBuffer2` is given away, and something was queued
      have hq : 0 < s.buffers.length := List.length_pos_iff.mpr (h.queued hn)
      refine ⟨⟨b1, e1⟩, .inr ⟨b2, by rw [hn, e2]; rfl, l2⟩, ?_, distinct_of_le fun a => ?_, rfl,
        by simp, .inr ⟨by rw [hn]; rfl, by simp; omega⟩⟩
      · intro hnone
        rw [hn, e2] at hnone
        cases hnone
      · have := hd a
        simp only [hn, e1, e2, e3, Option.none_or, Option.isSome_none, Option.toList_some,
          Option.toList_none, held_nil, held_append, Bool.false_eq_true, if_false] at this ⊢
        omega
    · refine ⟨⟨b1, e1⟩, .inr ⟨c, by rw [hn]; rfl, hc⟩, ?_, distinct_of_le fun a => ?_, rfl,
        by simp, .inl ⟨b2, by rw [hn]; exact e2, l2⟩⟩
      · intro hnone
        rw [hn] at hnone
        cases hnone
      · have := hd a
        simp only [hn, e1, e2, e3, Option.some_or, Option.isSome_some, Option.toList_some,
          Option.toList_none, held_nil, held_append, if_true] at this ⊢
        omega
  | drop hp hlen => exact h.take_two (by simpa only [Locals, hp] using hl) _ _ rfl
  | resize hp => exact h.take_two (by simpa only [Locals, hp] using hl) _ _ rfl
  | has1 hp h1 =>
    simp only [Locals, hp] at hl
    exact absurd hl.1 h1
  | @recycle1 b hp h1 hb =>
    simp only [Locals, hp] at hl
    obtain ⟨-, -, e3⟩ := hl
    refine ⟨h.current, h.next, h.queued, distinct_of_le fun a => ?_, ⟨_, rfl, rfl⟩, ?_⟩
    · have hd := h.held_le a
      have := held_getLast hb a
      simp only [h1, Option.toList_some, Option.toList_none, held_nil, held_reset] at hd ⊢
      omega
    · rcases e3 with e3 | ⟨e3, hle⟩
      · exact .inl e3
      · exact .inr ⟨e3, by simp; omega⟩
  | has2 hp h2 =>
    simp only [Locals, hp] at hl
    refine h.moved ⟨hl.1, ?_⟩
    rcases hl.2 with e | ⟨e, -⟩
    · exact e
    · exact absurd e h2
  | @recycle2 b hp h2 hb =>
    simp only [Locals, hp] at hl
    refine ⟨h.current, h.next, h.queued, distinct_of_le fun a => ?_, hl.1, ⟨_, rfl, rfl⟩⟩
    have hd := h.held_le a
    have := held_getLast hb a
    simp only [h2, Option.toList_some, Option.toList_none, held_nil, held_reset] at hd ⊢
    omega
  | clear hp =>
    simp only [Locals, hp] at hl
    refine ⟨h.current, h.next, h.queued, distinct_of_le fun a => ?_, hl.1, hl.2, rfl⟩
    have hd := h.held_le a
    simp only [held_nil]
    omega

theorem wf_new {fresh1 fresh2 : Fresh} (h : fresh1.addr ≠ fresh2.addr) :
    WF (new fresh1 fresh2) := by
  refine ⟨⟨_, rfl⟩, .inr ⟨_, rfl, rfl⟩, fun hn => ?_, ?_, rfl, rfl, rfl⟩
  · cases hn
  · simpa [live, new, Buffer.new, Buffer.bzero] using h

theorem wf_exec {acts : List Act} (h : WF s) (he : Lts.exec step s acts = some s') : WF s' :=
  Lts.exec_keeps (fun _ _ _ hw hs => hw.step (step_move hs)) h he

/-- **The buffers in every reachable state.** Producers have a current buffer and the spare one
is empty; at the head of an iteration the backend has two empty buffers; a swap that gave
`newBuffer2` away took two buffers at least, and the asserts of the loop hold; no buffer object
is held twice. -/
theorem buffers_accounted (fresh1 fresh2 : Fresh) (hne : fresh1.addr ≠ fresh2.addr)
    (acts : List Act) (s : AsyncLogging) (he : Lts.exec step (new fresh1 fresh2) acts = some s) :
    (∃ b, s.currentBuffer = some b) ∧
    (∀ b, s.nextBuffer = some b → b.length = 0) ∧
    (s.pc = .test → Spare s.newBuffer1 ∧ Spare s.newBuffer2) ∧
    (s.pc = .trim → s.buffersToWrite ≠ [] ∧
      (s.newBuffer2 = none → 2 ≤ s.buffersToWrite.length)) ∧
    (s.pc = .recycle1 → s.newBuffer1 = none → s.buffersToWrite ≠ []) ∧
    (s.pc = .recycle2 → s.newBuffer2 = none → s.buffersToWrite ≠ []) ∧
    (s.live.map Buffer.addr).Nodup := by
  have h := wf_exec (wf_new hne) he
  have hl := h.locals
  refine ⟨h.current, fun b hb => ?_, fun hp => ?_, fun hp => ?_, fun hp _ => ?_, fun hp h2 => ?_,
    h.distinct⟩
  · rcases h.next with hn | ⟨c, hc, hz⟩
    · rw [hn] at hb
      cases hb
    · rw [hc] at hb
      cases hb
      exact hz
  · simp only [Locals, hp] at hl
    exact ⟨hl.1, hl.2.1⟩
  · simp only [Locals, hp] at hl
    refine ⟨hl.2.1, fun h2 => ?_⟩
    rcases hl.2.2 with ⟨b, hb, -⟩ | ⟨-, hle⟩
    · rw [h2] at hb
      cases hb
    · exact hle
  · simp only [Locals, hp] at hl
    exact hl.2.1
  · simp only [Locals, hp] at hl
    rcases hl.2 with ⟨b, hb, -⟩ | ⟨-, hle⟩
    · rw [h2] at hb
      cases hb
    · exact List.length_pos_iff.mp hle

/-- A message is appended; the backend waits, wakes up and takes the current buffer. -/
def firstSwap : List Act :=
  [.append ⟨Bytes.ascii "hi", 2⟩ ⟨2, fun _ => 7⟩, .start, .countDown, .started,
    .setup ⟨2, fun _ => 7⟩ ⟨3, fun _ => 7⟩, .test, .lock, .check, .wait, .wake, .swap]

theorem buffers_accounted_firstSwap :
    ∃ s, Lts.exec step (new ⟨0, fun _ => 7⟩ ⟨1, fun _ => 7⟩) firstSwap = some s ∧
      (∃ b, s.currentBuffer = some b) ∧
      (∀ b, s.nextBuffer = some b → b.length = 0) ∧
      (s.pc = .test → Spare s.newBuffer1 ∧ Spare s.newBuffer2) ∧
      (s.pc = .trim → s.buffersToWrite ≠ [] ∧
        (s.newBuffer2 = none → 2 ≤ s.buffersToWrite.length)) ∧
      (s.pc = .recycle1 → s.newBuffer1 = none → s.buffersToWrite ≠ []) ∧
      (s.pc = .recycle2 → s.newBuffer2 = none → s.buffersToWrite ≠ []) ∧
      (s.live.map Buffer.addr).Nodup := by
  obtain ⟨s, he⟩ : ∃ s, Lts.exec step (new ⟨0, fun _ => 7⟩ ⟨1, fun _ => 7⟩) firstSwap = some s :=
    ⟨_, rfl⟩
  exact ⟨s, he, buffers_accounted ⟨0, fun _ => 7⟩ ⟨1, fun _ => 7⟩ (by decide) firstSwap s he⟩

end AsyncLogging

end MultiThreadLog
