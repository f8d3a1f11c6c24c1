import MultiThreadLog.Sync.Thread

/-!
# How long `start()` takes

`start()` waits for the child, and the child may wait for the mutex of `latch_`. `left` counts the
steps that the two have still to make until `start()` returns: `release` those of the child until it
is behind the latch, `wait` those of the parent. While the count is up the parent's steps lead into
the wait, and each of them is worth more than the way out takes (`leftClosed`), so the count-down,
which turns the one way into the other, lowers the number as every other step does. Only a wake-up
for nothing raises it.
-/

namespace MultiThreadLog

namespace CountDownLatch

/-- The steps from these places into the wait and, after the broadcast, to the return. -/
def Pc.leftClosed : Pc → MutexLock.Pc → Nat
  | .idle, _ => 12
  | .within _, .acquire | .within _, .reacquire => 11
  | .within _, .assign | .within _, .restore => 10
  | .within _, .out => 9
  | .within _, .block => 8
  | .within _, _ => 7
  | .leaving _, _ => 2

/-- The steps from these places to the return, with the call. -/
def Pc.leftOpen : Pc → MutexLock.Pc → Nat
  | .idle, _ => 6
  | p, q => p.left q

theorem Pc.leftOpen_le (p : Pc) (q : MutexLock.Pc) :
    p.leftOpen q ≤ p.leftClosed q ∧ p.leftOpen (condition.awaken q) ≤ p.leftClosed q := by
  cases p <;> cases q <;>
    simp [Pc.leftOpen, Pc.left, Pc.leftClosed, CondVar.awaken, condition]

theorem Pc.leftOpen_of_ne {p : Pc} (h : p ≠ .idle) (q : MutexLock.Pc) :
    p.leftOpen q = p.left q := by
  cases p with
  | idle => exact absurd rfl h
  | within f | leaving f => rfl

def Act.isRet {ι : Type} : Act ι → Bool
  | .ret _ _ => true
  | _ => false

section

variable {ι : Type} [DecidableEq ι] {tids : Tids ι} {s s' : CountDownLatch ι} {a : Act ι}
  {count : Int32} {i : ι}

theorem step_busy (h : s.Placed) (hs : s.step tids a = some s') (hret : a.isRet = false) :
    s'.pc a.thread ≠ .idle := by
  have hmove := step_move hs
  cases hmove with
  | call | pass | countDown =>
    intro e
    cases (goto_pc_self ..).symm.trans e
  | mutex | again | unlock => exact h.busy hs rfl
  | ret => cases hret

/-- A thread that nothing keeps gets on by a step of its own, the call included. -/
theorem Free.leftOpen_own (h : Free tids count i s) (hs : s.step tids a = some s')
    (hi : a.thread = i) (hret : a.isRet = false) :
    (s'.pc i).leftOpen (s'.mutex.pc i) < (s.pc i).leftOpen (s.mutex.pc i) := by
  cases hcall : a.isCall with
  | false =>
    have hlt := h.own hs hi hcall
    have hbefore := h.placed.busy hs hcall
    have hafter := step_busy h.placed hs hret
    rw [hi] at hbefore hafter
    rwa [Pc.leftOpen_of_ne hbefore, Pc.leftOpen_of_ne hafter]
  | true =>
    subst hi
    cases step_move hs with
    | @call i f m hpc hm =>
      have htarget : m.pc i = .acquire := (MutexLock.step_pc hm).2
      show ((s.goto i (.within f)).pc i).leftOpen (m.pc i) < (s.pc i).leftOpen (s.mutex.pc i)
      rw [goto_pc_self, htarget, hpc]
      show 5 < 6
      decide
    | mutex | again | pass | countDown | unlock | ret => cases hcall

end

end CountDownLatch

namespace Thread

open CountDownLatch

/-- The steps of the parent until `latch_.wait()` returns. -/
def wait (l : CountDownLatch Party) : Nat :=
  if l.count ≤ 0 then (l.pc .parent).leftOpen (l.mutex.pc .parent)
  else (l.pc .parent).leftClosed (l.mutex.pc .parent)

/-- The steps of the child until it has left the latch. -/
def release (s : Thread) : Nat :=
  match s.child with
  | .entry => 7
  | .counting => (s.latch.pc .child).leftOpen (s.latch.mutex.pc .child)
  | _ => 0

/-- The steps of the parent until `start()` returns. -/
def toReturn (s : Thread) : Nat :=
  match s.parent with
  | .waiting => wait s.latch + 1
  | .checking => 1
  | _ => 0

def left (s : Thread) : Nat := s.release + s.toReturn

/-- A step in `start()`, or of the child before `start()` may return. -/
def Act.starting : Act → Bool
  | .latch _ | .setTid | .check => true
  | _ => false

def Act.spurious : Act → Bool
  | .latch a => a.spurious
  | _ => false

variable {tids : Tids Party} {s s' : Thread} {a : Act} {l : CountDownLatch Party}

/-! ## The latch -/

theorem AtLatch.free_child (h : s.AtLatch tids) : Free tids 1 .child s.latch := by
  refine ⟨⟨_, h.latch⟩, h.placed, .inr ?_⟩
  rcases h.child with hpc | ⟨-, hpc | hpc⟩ <;> rw [hpc] <;> nofun

theorem AtLatch.free_parent (h : s.AtLatch tids) (hcount : s.latch.count ≤ 0) :
    Free tids 1 .parent s.latch := ⟨⟨_, h.latch⟩, h.placed, .inl hcount⟩

/-- A step of the parent towards the wait. -/
theorem AtLatch.leftClosed_own (h : s.AtLatch tids) (hph : s.Phases tids)
    (hcount : ¬ s.latch.count ≤ 0) {a : CountDownLatch.Act Party}
    (hl : s.latch.step tids a = some l) (hi : a.thread = .parent) (hsp : a.spurious = false) :
    l.count = s.latch.count ∧
      (l.pc .parent).leftClosed (l.mutex.pc .parent) <
        (s.latch.pc .parent).leftClosed (s.latch.mutex.pc .parent) := by
  have hleaving : s.latch.pc .parent ≠ .leaving .wait := by
    intro hpc
    exact hcount (h.count_le_iff.mpr (if_pos (.inl (hph.leaving hpc))))
  have hmove := CountDownLatch.step_move hl
  cases hmove with
  | @call i f m hpc hm =>
    obtain rfl : i = .parent := hi
    have htarget : m.pc .parent = .acquire := (MutexLock.step_pc hm).2
    refine ⟨rfl, ?_⟩
    show ((s.latch.goto .parent (.within f)).pc .parent).leftClosed (m.pc .parent) <
      (s.latch.pc .parent).leftClosed (s.latch.mutex.pc .parent)
    rw [goto_pc_self, htarget, hpc]
    show 11 < 12
    decide
  | @mutex b m hb hm =>
    replace hi : b.thread = .parent := hi
    obtain ⟨hsource, htarget⟩ := MutexLock.step_pc hm
    have hfits := h.placed.fits b.thread
    rw [hsource] at hfits
    obtain ⟨f, hf, -⟩ := Pc.inside_fits hb hfits
    rw [hi] at hsource htarget hf
    refine ⟨rfl, ?_⟩
    show (s.latch.pc .parent).leftClosed (m.pc .parent) <
      (s.latch.pc .parent).leftClosed (s.latch.mutex.pc .parent)
    rw [htarget, hsource, hf]
    cases b with
    | lock i | unlock i | release i | wait i => cases hb
    | wake i => cases hsp
    | acquire i | assign i | reacquire i | restore i | block i =>
      simp [Pc.leftClosed, MutexLock.Act.source, MutexLock.Act.target]
  | @again i m hpos hm =>
    obtain rfl : i = .parent := hi
    have hpc : s.latch.pc .parent = .within .wait := (Option.ite_none_right_eq_some.mp hl).1.1
    have hsource : s.latch.mutex.pc .parent = .out := (MutexLock.step_pc hm).1
    have htarget : m.pc .parent = .block := (MutexLock.step_pc hm).2
    refine ⟨rfl, ?_⟩
    show (s.latch.pc .parent).leftClosed (m.pc .parent) <
      (s.latch.pc .parent).leftClosed (s.latch.mutex.pc .parent)
    rw [hpc, hsource, htarget]
    show 8 < 9
    decide
  | pass hpc hout hle => exact absurd hle hcount
  | countDown hpc =>
    obtain ⟨-, hf⟩ | ⟨rfl, -⟩ := h.who.1 _ hpc
    · cases hf
    · cases hi
  | @unlock i m hm =>
    obtain rfl : i = .parent := hi
    have hpc := (Option.ite_none_right_eq_some.mp hl).1
    rcases hpc with hpc | hpc
    · exact absurd hpc hleaving
    · obtain ⟨-, hf⟩ | ⟨hp, -⟩ := h.who.2 _ hpc
      · cases hf
      · cases hp
  | @ret i f m hpc hm =>
    obtain rfl : i = .parent := hi
    obtain ⟨-, rfl⟩ | ⟨hp, -⟩ := h.who.2 _ hpc
    · exact absurd hpc hleaving
    · cases hp

/-- The parent gets on at the latch. -/
theorem wait_own (h : s.AtLatch tids) (hph : s.Phases tids) {a : CountDownLatch.Act Party}
    (hl : s.latch.step tids a = some l) (hi : a.thread = .parent) (hsp : a.spurious = false)
    (hret : a.isRet = false) : wait l < wait s.latch := by
  by_cases hcount : s.latch.count ≤ 0
  · have hsame : l.count = s.latch.count := by
      cases CountDownLatch.step_move hl with
      | countDown hpc =>
        obtain ⟨-, hf⟩ | ⟨rfl, -⟩ := h.who.1 _ hpc
        · cases hf
        · cases hi
      | call | mutex | again | pass | unlock | ret => rfl
    rw [wait, wait, hsame, if_pos hcount, if_pos hcount]
    exact (h.free_parent hcount).leftOpen_own hl hi hret
  · obtain ⟨hsame, hlt⟩ := h.leftClosed_own hph hcount hl hi hsp
    rw [wait, wait, hsame, if_neg hcount, if_neg hcount]
    exact hlt

/-- The child counts a latch down that is up. -/
theorem AtLatch.countDown_opens (h : s.AtLatch tids) {a : CountDownLatch.Act Party}
    (ha : s.inLatch a = true) (hl : s.latch.step tids a = some l) (hc : a.countsDown = true) :
    ¬ s.latch.count ≤ 0 ∧ l.count ≤ 0 := by
  have hafter := h.latchStep ha hl
  cases CountDownLatch.step_move hl with
  | @countDown i o k m hpc hout hk hmutex =>
    obtain ⟨-, hf⟩ | ⟨rfl, -⟩ := h.who.1 _ hpc
    · cases hf
    · refine ⟨fun hle => ?_, hafter.count_le_iff.mpr (if_pos (.inr rfl))⟩
      have hn := h.count_le_iff.mp hle
      have hcounting : s.child = .counting := by
        rcases h.child with hidle | ⟨hc, -⟩
        · rw [hidle] at hpc
          cases hpc
        · exact hc
      rw [countDowns, if_neg (by simp [hcounting, hpc, Child.past])] at hn
      cases hn
  | call | mutex | again | pass | unlock | ret => cases hc

theorem step_count {a : CountDownLatch.Act Party} (hl : s.latch.step tids a = some l) :
    l.count = s.latch.count ∨ a.countsDown = true := by
  cases CountDownLatch.step_move hl with
  | countDown => exact .inr rfl
  | call | mutex | again | pass | unlock | ret => exact .inl rfl

/-- The child does not keep the parent longer. -/
theorem wait_other (h : s.AtLatch tids) {a : CountDownLatch.Act Party} (ha : s.inLatch a = true)
    (hl : s.latch.step tids a = some l) (hi : a.thread = .child) : wait l ≤ wait s.latch := by
  have hne : Party.parent ≠ a.thread := by
    rw [hi]
    nofun
  obtain ⟨hpc, hmutex⟩ := step_other hl hne
  obtain ⟨hle, hawaken⟩ := Pc.leftOpen_le (s.latch.pc .parent) (s.latch.mutex.pc .parent)
  by_cases hcount : s.latch.count ≤ 0
  · -- the latch stays down
    have hsame : l.count = s.latch.count :=
      (step_count hl).resolve_right fun hc => (h.countDown_opens ha hl hc).1 hcount
    obtain ⟨-, hm⟩ := (h.free_parent hcount).stays hl hne
    rw [wait, wait, hsame, if_pos hcount, if_pos hcount]
    exact Nat.le_of_eq (by rw [hpc, hm])
  · rw [wait, wait, if_neg hcount]
    split
    · rcases hmutex with hm | ⟨-, hm⟩ <;> rw [hpc, hm]
      · exact hle
      · exact hawaken
    · rename_i hup
      rcases hmutex with hm | ⟨h0, -⟩
      · exact Nat.le_of_eq (by rw [hpc, hm])
      · exact absurd (by rw [h0]; decide) hup

/-! ## The two threads -/

theorem leave_of_not_ret {a : CountDownLatch.Act Party} (h : a.isRet = false) :
    s.leave a = s := by
  cases a with
  | ret => cases h
  | call | mutex | test | countDown | unlock => rfl

theorem AtLatch.waiting_of (h : s.AtLatch tids) (hpc : s.latch.pc .parent ≠ .idle) :
    s.parent = .waiting := (h.parent.resolve_left hpc).1

theorem AtLatch.counting_of (h : s.AtLatch tids) (hpc : s.latch.pc .child ≠ .idle) :
    s.child = .counting := (h.child.resolve_left hpc).1

theorem step_ret {i : Party} {f : Call} (hl : s.latch.step tids (.ret i f) = some l) :
    s.latch.pc i = .leaving f ∧ s.latch.mutex.pc i = .release := by
  cases CountDownLatch.step_move hl with
  | ret hpc hm => exact ⟨hpc, (MutexLock.step_pc hm).1⟩

/-- A step of the parent at the latch. -/
theorem left_parent (h : s.AtLatch tids) (hph : s.Phases tids) {a : CountDownLatch.Act Party}
    (ha : s.inLatch a = true) (hl : s.latch.step tids a = some l) (hi : a.thread = .parent)
    (hsp : a.spurious = false) : left { s.leave a with latch := l } < s.left := by
  have hne : Party.child ≠ a.thread := by
    rw [hi]
    nofun
  obtain ⟨hpc, hm⟩ := h.free_child.stays hl hne
  have hparent : s.parent = .waiting := by
    cases hcall : a.isCall with
    | false => exact h.waiting_of (hi ▸ h.placed.busy hl hcall)
    | true =>
      cases a with
      | call i f =>
        obtain rfl : i = .parent := hi
        exact (of_decide_eq_true ha).1
      | mutex | test | countDown | unlock | ret => cases hcall
  have hrelease : release { s.leave a with latch := l } = s.release := by
    have hchild : (s.leave a).child = s.child := by
      cases a with
      | ret i f =>
        obtain rfl : i = .parent := hi
        rfl
      | call | mutex | test | countDown | unlock => rfl
    simp only [release, hchild, hpc, hm]
  rw [left, left, hrelease]
  refine Nat.add_lt_add_left ?_ _
  cases hret : a.isRet with
  | false =>
    have hlt := wait_own h hph hl hi hsp hret
    rw [leave_of_not_ret hret]
    simp only [toReturn, hparent]
    omega
  | true =>
    cases a with
    | ret i f =>
      obtain rfl : i = .parent := hi
      obtain ⟨hleaving, hrel⟩ := step_ret hl
      obtain ⟨-, rfl⟩ | ⟨hp, -⟩ := h.who.2 _ hleaving
      · have hcount : s.latch.count ≤ 0 :=
          h.count_le_iff.mpr (if_pos (.inl (hph.leaving hleaving)))
        have hone : wait s.latch = 1 := by
          rw [wait, if_pos hcount, hleaving, hrel]
          rfl
        simp only [toReturn, hparent, hone, leave]
        omega
      · cases hp
    | call | mutex | test | countDown | unlock => cases hret

/-- A step of the child at the latch. -/
theorem left_child (h : s.AtLatch tids) {a : CountDownLatch.Act Party}
    (ha : s.inLatch a = true) (hl : s.latch.step tids a = some l) (hi : a.thread = .child) :
    left { s.leave a with latch := l } < s.left := by
  have hle := wait_other h ha hl hi
  have hchild : s.child = .counting := by
    cases hcall : a.isCall with
    | false => exact h.counting_of (hi ▸ h.placed.busy hl hcall)
    | true =>
      cases a with
      | call i f =>
        obtain rfl : i = .child := hi
        exact (of_decide_eq_true ha).1
      | mutex | test | countDown | unlock | ret => cases hcall
  have hreturn : toReturn { s.leave a with latch := l } ≤ s.toReturn := by
    have hparent : (s.leave a).parent = s.parent := by
      cases a with
      | ret i f =>
        obtain rfl : i = .child := hi
        rfl
      | call | mutex | test | countDown | unlock => rfl
    cases hp : s.parent <;> simp only [toReturn, hparent, hp] <;> omega
  refine Nat.add_lt_add_of_lt_of_le ?_ hreturn
  cases hret : a.isRet with
  | false =>
    have hlt := h.free_child.leftOpen_own hl hi hret
    rw [leave_of_not_ret hret]
    simpa only [release, hchild] using hlt
  | true =>
    cases a with
    | ret i f =>
      obtain rfl : i = .child := hi
      obtain ⟨hleaving, hrel⟩ := step_ret hl
      have hone : s.release = 1 := by
        rw [release, hchild, hleaving, hrel]
        rfl
      rw [hone]
      exact Nat.one_pos
    | call | mutex | test | countDown | unlock => cases hret

/-- The child is created, and `start()` has still to return or has returned. -/
structure Started (tids : Tids Party) (s : Thread) : Prop where
  inv : s.Inv tids
  started : s.started = true
  creating : s.parent ≠ .creating

theorem Started.step (h : s.Started tids) (hs : s.step tids a = some s') : s'.Started tids := by
  have hmove := (step_move hs).2
  refine ⟨h.inv.step hmove, ?_, ?_⟩
  · cases hmove with
    | failed hp => exact absurd hp h.creating
    | start => rfl
    | @latch b l hb hl =>
      cases b with
      | ret i f => cases i <;> exact h.started
      | call | mutex | test | countDown | unlock => exact h.started
    | created | check | join | joinReturn | destroy | setTid | setName | callFunc | func
    | funcReturn | crash | exit => exact h.started
  · cases hmove with
    | start hp hd hst => exact absurd (hst.symm.trans h.started) nofun
    | @latch b l hb hl =>
      cases b with
      | ret i f =>
        cases i with
        | parent => exact nofun
        | child => exact h.creating
      | call | mutex | test | countDown | unlock => exact h.creating
    | created | failed | check | join | joinReturn => exact nofun
    | destroy | setTid | setName | callFunc | func | funcReturn | crash | exit => exact h.creating

/-- **The countdown** of `start()`, from one wake-up for nothing to the next. -/
theorem left_countdown (tids : Tids Party) :
    Lts.Countdown (Thread.step tids) (Started tids) Act.starting (fun _ a => a.spurious = true)
      left where
  keeps h hs _ := h.step hs
  lowers {s a s'} h hs hq hp := by
    have hmove := (step_move hs).2
    obtain ⟨hat, hph⟩ := h.inv
    cases hmove with
    | @latch b l hb hl =>
      have hsp : b.spurious = false := Bool.eq_false_iff.mpr hq
      cases hi : b.thread with
      | parent => exact left_parent hat hph hb hl hi hsp
      | child => exact left_child hat hb hl hi
    | setTid hc =>
      have hidle : s.latch.pc .child = .idle := hat.child.resolve_right fun ⟨hc', _⟩ =>
        absurd (hc.symm.trans hc') nofun
      have hsix : (s.latch.pc .child).leftOpen (s.latch.mutex.pc .child) = 6 := by
        rw [hidle]
        rfl
      cases hpar : s.parent <;> simp only [left, release, toReturn, hc, hpar, hsix] <;> omega
    | check hp' => simp [left, toReturn, hp', release]
    | start | created | failed | join | joinReturn | destroy | setName | callFunc | func
    | funcReturn | crash | exit => cases hp
  raisesNot {s a s'} h hs _ hp := by
    have hmove := (step_move hs).2
    cases hmove with
    | start hp' hd hst => exact absurd (hst.symm.trans h.started) nofun
    | created hp' | failed hp' => exact absurd hp' h.creating
    | join hp' | joinReturn hp' => simp [left, toReturn, hp', release]
    | destroy | func => exact Nat.le_refl _
    | setName hc | callFunc hc | funcReturn hc | crash hc | exit hc =>
      simp [left, toReturn, hc, release]
    | latch | check | setTid => cases hp

theorem left_le (s : Thread) : s.left ≤ 20 := by
  have hopen : ∀ p q, Pc.leftOpen p q ≤ 6 := by
    intro p q
    cases p <;> cases q <;> simp [Pc.leftOpen, Pc.left]
  have hclosed : ∀ p q, Pc.leftClosed p q ≤ 12 := by
    intro p q
    cases p <;> cases q <;> simp [Pc.leftClosed]
  have hwait : wait s.latch ≤ 12 := by
    unfold wait
    split
    · exact Nat.le_trans (hopen ..) (by omega)
    · exact hclosed ..
  have hrelease : s.release ≤ 7 := by
    unfold release
    split
    · omega
    · exact Nat.le_trans (hopen ..) (by omega)
    · omega
  have hreturn : s.toReturn ≤ 13 := by
    unfold toReturn
    split <;> omega
  unfold left
  omega

/-! ## Somebody can step -/

theorem latch_enabled {b : CountDownLatch.Act Party} (hc : s.child ≠ .crashed)
    (hb : s.inLatch b = true) (h : (s.latch.step tids b).isSome) :
    (s.step tids (.latch b)).isSome := by
  rw [Thread.step, if_neg hc]
  show (if s.inLatch b then (s.latch.step tids b).map _ else none).isSome
  rw [if_pos hb, Option.isSome_map]
  exact h

/-- A thread that is in no function of the latch can call one. -/
theorem call_enabled (h : s.latch.Placed) {i : Party} (hidle : s.latch.pc i = .idle) (f : Call) :
    (s.latch.step tids (.call i f)).isSome := by
  have hfits := h.fits i
  have hout : s.latch.mutex.pc i = .out := by
    rw [hidle] at hfits
    cases hp : s.latch.mutex.pc i with
    | out => rfl
    | acquire | assign | release | block | blocked | reacquire | restore =>
      rw [hp] at hfits
      cases hfits
  simp [CountDownLatch.step, MutexLock.step, hidle, hout]

theorem free_enabled {i : Party} (h : Free tids 1 i s.latch) (hpc : s.latch.pc i ≠ .idle)
    (hc : s.child ≠ .crashed) :
    ∃ a : Act, a.starting = true ∧ a.spurious = false ∧ (s.step tids a).isSome := by
  obtain ⟨b, ⟨hcall, hsp⟩, -, hb⟩ := h.enabled hpc
  refine ⟨.latch b, rfl, hsp, latch_enabled hc ?_ hb⟩
  cases b with
  | call => cases hcall
  | mutex | test | countDown | unlock | ret => rfl

/-- **No deadlock** in `start()`. -/
theorem Started.enabled (h : s.Started tids) (hp : s.parent = .waiting ∨ s.parent = .checking)
    (hc : s.child ≠ .crashed) :
    ∃ a : Act, a.starting = true ∧ a.spurious = false ∧ (s.step tids a).isSome := by
  obtain ⟨hat, hph⟩ := h.inv
  rcases hp with hp | hp
  · by_cases hidle : s.latch.pc .parent = .idle
    · exact ⟨.latch (.call .parent .wait), rfl, rfl, latch_enabled hc
        (decide_eq_true ⟨hp, rfl⟩) (call_enabled hat.placed hidle .wait)⟩
    by_cases hpast : s.child.past = true
    · exact free_enabled (hat.free_parent (hat.count_le_iff.mpr (if_pos (.inl hpast)))) hidle hc
    cases hchild : s.child with
    | none => exact absurd hchild (hph.created h.creating h.started)
    | entry =>
      exact ⟨.setTid, rfl, rfl, by simp [Thread.step, hchild]⟩
    | counting =>
      by_cases hcidle : s.latch.pc .child = .idle
      · exact ⟨.latch (.call .child .countDown), rfl, rfl, latch_enabled hc
          (decide_eq_true ⟨hchild, rfl⟩) (call_enabled hat.placed hcidle .countDown)⟩
      · exact free_enabled hat.free_child hcidle hc
    | naming | calling | func | returned | ended | crashed =>
      rw [hchild] at hpast
      exact absurd rfl hpast
  · exact ⟨.check, rfl, rfl, by simp [Thread.step, hp, hc]⟩

/-- **`start()` returns.** In every run, once `pthread_create` has made the child, the two threads
make at most 20 steps until `start()` returns, in any order with what else happens and up to a
wake-up for nothing; and until then one of them can step, without such a wake-up, unless `func_` has
thrown. -/
theorem start_returns (tids : Tids Party) (pre post : List Act) (s1 s : Thread)
    (h1 : Lts.exec (Thread.step tids) new pre = some s1) (hp : s1.parent = .waiting)
    (h : Lts.exec (Thread.step tids) s1 post = some s) (hsp : ∀ a ∈ post, a.spurious = false) :
    post.countP Act.starting ≤ 20 ∧
    (s.parent = .waiting ∨ s.parent = .checking → s.child ≠ .crashed →
      ∃ a : Act, a.starting = true ∧ a.spurious = false ∧ (s.step tids a).isSome) := by
  have hinv := inv_exec h1
  have hstarted : Started tids s1 :=
    ⟨hinv, hinv.phases.started_of (by rw [hp]; nofun), by rw [hp]; nofun⟩
  have hends : ∀ before a after u, post = before ++ a :: after →
      Lts.exec (Thread.step tids) s1 before = some u → ¬ a.spurious = true := by
    intro before a after u e _ hq
    rw [hsp a (by rw [e]; exact List.mem_append_right _ List.mem_cons_self)] at hq
    cases hq
  obtain ⟨hs, hle⟩ := (left_countdown tids).countP_le_of hstarted h hends
  have h20 := s1.left_le
  exact ⟨by omega, hs.enabled⟩

/-- The child comes to the latch while the parent waits there. -/
theorem start_returns_startedLate :
    ∃ s1 s, Lts.exec (Thread.step parentAndChild) new (startedLate.take 4) = some s1 ∧
      s1.parent = .waiting ∧
      Lts.exec (Thread.step parentAndChild) s1 [.latch (.call .parent .wait),
        .latch (.mutex (.acquire .parent)), .setTid, .latch (.call .child .countDown)] = some s ∧
      ∃ a : Act, a.starting = true ∧ a.spurious = false ∧ (s.step parentAndChild a).isSome := by
  obtain ⟨s, he, hps, hcs⟩ : ∃ s, Lts.exec (Thread.step parentAndChild) new (startedLate.take 4 ++
      [.latch (.call .parent .wait), .latch (.mutex (.acquire .parent)), .setTid,
        .latch (.call .child .countDown)]) = some s ∧ s.parent = .waiting ∧ s.child = .counting :=
    ⟨_, rfl, rfl, rfl⟩
  obtain ⟨s1, h1, h⟩ := Lts.exec_append_some he
  have hp : s1.parent = .waiting := by
    have e : (Lts.exec (Thread.step parentAndChild) new (startedLate.take 4)).map Thread.parent =
      some .waiting := rfl
    rw [h1] at e
    exact Option.some_inj.mp e
  exact ⟨s1, s, h1, hp, h, (start_returns parentAndChild _ _ s1 s h1 hp h
    (by simp [Act.spurious, CountDownLatch.Act.spurious])).2 (.inl hps) (by rw [hcs]; nofun)⟩

end Thread

end MultiThreadLog
