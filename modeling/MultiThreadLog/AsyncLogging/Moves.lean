import MultiThreadLog.AsyncLogging.Basic

/-!
# What a step of `AsyncLogging` can do

`Move s a s'` lists the steps by their effect, one constructor for each branch of the code: what
was checked, and the state afterwards. Every later result about runs is a case analysis on it.
-/

namespace MultiThreadLog

namespace AsyncLogging

inductive Move : AsyncLogging → Act → AsyncLogging → Prop where
  /-- The message goes into the current buffer. -/
  | put {s m fresh b b'} (hm : s.pc.holdsMutex = false) (hb : s.currentBuffer = some b)
      (hlen : m.len < b.avail) (happ : b.append m.logline m.len = some b') :
      Move s (.append m fresh) { s with currentBuffer := some b' }
  /-- The current buffer is queued; the message goes into the spare one or a new one. -/
  | roll {s m fresh b c c'} (hm : s.pc.holdsMutex = false) (hb : s.currentBuffer = some b)
      (hlen : b.avail ≤ m.len)
      (hc : s.nextBuffer = some c ∨ s.nextBuffer = none ∧ s.alloc fresh = some c)
      (happ : c.append m.logline m.len = some c') :
      Move s (.append m fresh) { s with
        buffers := s.buffers ++ [b]
        nextBuffer := none
        currentBuffer := some c'
        pc := s.pc.signalled }
  | start {s} (ho : s.owner = .constructed) (hp : s.pc = .unstarted) :
      Move s .start { s with running := true, pc := .entry, owner := .starting }
  | started {s} (ho : s.owner = .starting) (hl : s.latch = 0) :
      Move s .started { s with owner := .started }
  | stop {s} (ho : s.owner = .started) : Move s .stop { s with owner := .stopping }
  | clearRunning {s} (ho : s.owner = .stopping) :
      Move s .clearRunning { s with running := false, owner := .cleared }
  | notify {s} (ho : s.owner = .cleared) :
      Move s .notify { s with owner := .notified, pc := s.pc.signalled }
  | join {s} (ho : s.owner = .notified) (hp : s.pc = .exited) :
      Move s .join { s with owner := .joined }
  | countDown {s} (hp : s.pc = .entry) (hr : s.running = true) :
      Move s .countDown { s with latch := s.latch - 1, pc := .setup }
  | setup {s fresh1 fresh2 b1 b2} (hp : s.pc = .setup) (h1 : s.alloc fresh1 = some b1)
      (h2 : alloc { s with newBuffer1 := some b1.bzero } fresh2 = some b2) :
      Move s (.setup fresh1 fresh2)
        { s with newBuffer1 := some b1.bzero, newBuffer2 := some b2.bzero, pc := .test }
  | enter {s} (hp : s.pc = .test) (hr : s.running = true) : Move s .test { s with pc := .lock }
  | exit {s} (hp : s.pc = .test) (hr : s.running = false) :
      Move s .test { s with
        newBuffer1 := none
        newBuffer2 := none
        buffersToWrite := []
        output := s.output ++ [.flush]
        pc := .exited }
  | lock {s} (hp : s.pc = .lock) : Move s .lock { s with pc := .check }
  | empty {s} (hp : s.pc = .check) (hq : s.buffers = []) : Move s .check { s with pc := .wait }
  | nonempty {s} (hp : s.pc = .check) (hq : s.buffers ≠ []) : Move s .check { s with pc := .swap }
  | wait {s} (hp : s.pc = .wait) : Move s .wait { s with pc := .blocked false }
  | wake {s w} (hp : s.pc = .blocked w) : Move s .wake { s with pc := .swap }
  | swap {s b} (hp : s.pc = .swap) (hb : s.currentBuffer = some b) :
      Move s .swap { s with
        currentBuffer := s.newBuffer1
        newBuffer1 := none
        buffersToWrite := s.buffers ++ [b]
        buffers := s.buffersToWrite
        nextBuffer := s.nextBuffer.or s.newBuffer2
        newBuffer2 := if s.nextBuffer.isSome then s.newBuffer2 else none
        pc := .trim }
  | drop {s now} (hp : s.pc = .trim) (hlen : 25 < s.buffersToWrite.length) :
      Move s (.trim now) { s with
        output := s.output ++ [.append (noticeText now (s.buffersToWrite.length - 2))]
        buffersToWrite := s.buffersToWrite.take 2
        pc := .write 0 }
  | keep {s now} (hp : s.pc = .trim) (hne : s.buffersToWrite ≠ [])
      (hlen : s.buffersToWrite.length ≤ 25) : Move s (.trim now) { s with pc := .write 0 }
  | write {s k b} (hp : s.pc = .write k) (hb : s.buffersToWrite[k]? = some b) :
      Move s .write { s with output := s.output ++ [.append b.toString], pc := .write (k + 1) }
  | written {s k} (hp : s.pc = .write k) (hk : s.buffersToWrite.length ≤ k) :
      Move s .write { s with pc := .resize }
  | resize {s} (hp : s.pc = .resize) :
      Move s .resize { s with buffersToWrite := s.buffersToWrite.take 2, pc := .recycle1 }
  | has1 {s} (hp : s.pc = .recycle1) (h1 : s.newBuffer1 ≠ none) :
      Move s .recycle1 { s with pc := .recycle2 }
  | recycle1 {s b} (hp : s.pc = .recycle1) (h1 : s.newBuffer1 = none)
      (hb : s.buffersToWrite.getLast? = some b) :
      Move s .recycle1 { s with
        newBuffer1 := some b.reset
        buffersToWrite := s.buffersToWrite.dropLast
        pc := .recycle2 }
  | has2 {s} (hp : s.pc = .recycle2) (h2 : s.newBuffer2 ≠ none) :
      Move s .recycle2 { s with pc := .clear }
  | recycle2 {s b} (hp : s.pc = .recycle2) (h2 : s.newBuffer2 = none)
      (hb : s.buffersToWrite.getLast? = some b) :
      Move s .recycle2 { s with
        newBuffer2 := some b.reset
        buffersToWrite := s.buffersToWrite.dropLast
        pc := .clear }
  | clear {s} (hp : s.pc = .clear) :
      Move s .clear { s with buffersToWrite := [], output := s.output ++ [.flush], pc := .test }

variable {s s' : AsyncLogging}

theorem append_move {m : Msg} {fresh : Fresh} (h : s.append m fresh = some s') :
    Move s (.append m fresh) s' := by
  unfold append at h
  split at h
  · cases h
  rename_i hm
  obtain ⟨b, hb, h⟩ := Option.bind_eq_some_iff.mp h
  split at h
  · rename_i hlen
    obtain ⟨b', hb', e⟩ := Option.map_eq_some_iff.mp h
    subst e
    exact .put (by simpa using hm) hb hlen hb'
  · rename_i hlen
    simp only [Option.bind_eq_some_iff] at h
    obtain ⟨c, hc, h⟩ := h
    obtain ⟨c', hc', e⟩ := Option.map_eq_some_iff.mp h
    subst e
    refine .roll (by simpa using hm) hb (by omega) ?_ hc'
    cases hn : s.nextBuffer with
    | some d => rw [hn] at hc; exact .inl hc
    | none => rw [hn] at hc; exact .inr ⟨rfl, hc⟩

theorem setup_move {fresh1 fresh2 : Fresh} (h : s.setup fresh1 fresh2 = some s') :
    Move s (.setup fresh1 fresh2) s' := by
  unfold setup at h
  split at h
  · rename_i hp
    obtain ⟨b1, h1, h⟩ := Option.bind_eq_some_iff.mp h
    obtain ⟨b2, h2, e⟩ := Option.map_eq_some_iff.mp h
    subst e
    exact .setup hp h1 h2
  · cases h

theorem test_move (h : s.test = some s') : Move s .test s' := by
  unfold test at h
  split at h
  · rename_i hp
    split at h
    · rename_i hr; cases h; exact .enter hp hr
    · rename_i hr; cases h; exact .exit hp (by simpa using hr)
  · cases h

theorem check_move (h : s.check = some s') : Move s .check s' := by
  unfold check at h
  split at h
  · rename_i hp
    split at h
    · rename_i hq; cases h; exact .empty hp (by simpa using hq)
    · rename_i hq; cases h; exact .nonempty hp (by simpa using hq)
  · cases h

theorem swap_move (h : s.swap = some s') : Move s .swap s' := by
  unfold swap at h
  split at h
  · rename_i hp
    obtain ⟨b, hb, e⟩ := Option.map_eq_some_iff.mp h
    subst e
    exact .swap hp hb
  · cases h

theorem trim_move {now : Timestamp} (h : s.trim now = some s') : Move s (.trim now) s' := by
  unfold trim at h
  split at h
  · rename_i hp
    split at h
    · rename_i hlen; cases h; exact .drop hp.1 hlen
    · rename_i hlen; cases h; exact .keep hp.1 hp.2 (by omega)
  · cases h

theorem write_move (h : s.write = some s') : Move s .write s' := by
  unfold write at h
  split at h
  · rename_i k hp
    split at h
    · rename_i b hb; cases h; exact .write hp hb
    · rename_i hb; cases h; exact .written hp (List.getElem?_eq_none_iff.mp hb)
  · cases h

theorem recycle1_move (h : s.recycle1 = some s') : Move s .recycle1 s' := by
  unfold recycle1 at h
  split at h
  · rename_i hp
    split at h
    · rename_i b h1; cases h; exact .has1 hp (by rw [h1]; exact Option.some_ne_none b)
    · rename_i h1
      obtain ⟨b, hb, e⟩ := Option.map_eq_some_iff.mp h
      subst e
      exact .recycle1 hp h1 hb
  · cases h

theorem recycle2_move (h : s.recycle2 = some s') : Move s .recycle2 s' := by
  unfold recycle2 at h
  split at h
  · rename_i hp
    split at h
    · rename_i b h2; cases h; exact .has2 hp (by rw [h2]; exact Option.some_ne_none b)
    · rename_i h2
      obtain ⟨b, hb, e⟩ := Option.map_eq_some_iff.mp h
      subst e
      exact .recycle2 hp h2 hb
  · cases h

/-- **Every step is a move.** -/
theorem step_move {a : Act} (h : s.step a = some s') : Move s a s' := by
  cases a with
  | append m fresh => exact append_move h
  | setup fresh1 fresh2 => exact setup_move h
  | test => exact test_move h
  | check => exact check_move h
  | swap => exact swap_move h
  | trim now => exact trim_move h
  | write => exact write_move h
  | recycle1 => exact recycle1_move h
  | recycle2 => exact recycle2_move h
  | start | started | join | countDown =>
    simp only [step, start, started, join, countDown] at h
    split at h
    · rename_i hg
      cases h
      constructor
      · exact hg.1
      · exact hg.2
    · cases h
  | stop | clearRunning | notify | lock | wait | resize | clear =>
    simp only [step, stop, clearRunning, notify, lock, wait, resize, clear] at h
    split at h
    · rename_i hg
      cases h
      constructor
      exact hg
    · cases h
  | wake =>
    simp only [step, wake] at h
    split at h
    · rename_i w hp
      cases h
      exact .wake hp
    · cases h

end AsyncLogging

end MultiThreadLog
