import MultiThreadLog.Sync.LatchProgress

/-!
# `Thread`

A `Thread` object, the parent that calls `start()`, `join()` and the destructor, and the child that
`pthread_create` makes (`Thread.cc`). `threadData_` is part of the object, its `latch_` too, and the
child works on it. `start()` waits at the latch until the child has counted it down, so it returns
when the child has written `tid_` and has left the latch for good (`start_join`): a destructor that
comes right behind it does not take a mutex away from the child. But the child goes on to read
`name_` and to run `func_`, and a destructor without `join()` only detaches it. `touched_iff` says
when the child comes to an object that is gone: exactly when it is detached and `func_` has not
returned.

The calls keep to the assertions of `start()` and `join()`. An exception that `func_` throws ends
the process (`crash`).
-/

namespace MultiThreadLog

/-- The two threads. -/
inductive Thread.Party where
  | parent
  | child
  deriving DecidableEq

/-- Where the parent is: in no function, in `start()` before `pthread_create`, at `latch_.wait()`
and at the assertion behind it, or in `pthread_join`. -/
inductive Thread.Parent where
  | idle
  | creating
  | waiting
  | checking
  | joining
  deriving DecidableEq

/-- Where the child is in `runInThread()`; `returned` is behind `func_()`. -/
inductive Thread.Child where
  | none
  | entry
  | counting
  | naming
  | calling
  | func
  | returned
  | ended
  | crashed
  deriving DecidableEq

structure Thread where
  started : Bool
  joined : Bool
  /-- `threadData_.tid_`. -/
  tid : Int
  latch : CountDownLatch Thread.Party
  parent : Thread.Parent
  child : Thread.Child
  destroyed : Bool

namespace Thread

def new : Thread := ⟨false, false, 0, .new 1, .idle, .none, false⟩

inductive Act where
  /-- `start()` is called, up to `pthread_create`. -/
  | start
  /-- `pthread_create` makes the child, or fails. -/
  | create (ok : Bool)
  /-- A step of `latch_.wait()` in `start()` or of `latch_.countDown()` in `runInThread()`. -/
  | latch (a : CountDownLatch.Act Party)
  /-- `assert(threadData_.tid_ > 0)`, and `start()` returns. -/
  | check
  /-- `join()` is called, up to `pthread_join`. -/
  | join
  | joinReturn
  | destroy
  /-- `threadData_.tid_ = CurrentThread::tid()`. -/
  | setTid
  /-- `t_threadName` is set from `threadData_.name_`. -/
  | setName
  | callFunc
  /-- A step of `func_`, which works on the values bound in it. -/
  | func
  | funcReturn
  /-- `func_` throws: `threadData_.name_` is printed and the process aborts. -/
  | crash
  /-- `startThread` returns. -/
  | exit

/-- The step of the latch comes where the code has it. -/
def inLatch (s : Thread) : CountDownLatch.Act Party → Bool
  | .call .parent f => s.parent = .waiting ∧ f = .wait
  | .call .child f => s.child = .counting ∧ f = .countDown
  | _ => true

/-- The code behind the latch. -/
def leave (s : Thread) : CountDownLatch.Act Party → Thread
  | .ret .parent _ => { s with parent := .checking }
  | .ret .child _ => { s with child := .naming }
  | _ => s

variable (tids : Tids Party)

def step (s : Thread) (a : Act) : Option Thread :=
  if s.child = .crashed then none else
  match a with
  | .start =>
    if s.parent = .idle ∧ s.destroyed = false ∧ s.started = false then
      some { s with started := true, parent := .creating }
    else none
  | .create ok =>
    if s.parent = .creating then
      if ok then some { s with parent := .waiting, child := .entry }
      else some { s with started := false, parent := .idle }
    else none
  | .latch a =>
    if s.inLatch a then (s.latch.step tids a).map fun l => { s.leave a with latch := l } else none
  | .check => if s.parent = .checking then some { s with parent := .idle } else none
  | .join =>
    if s.parent = .idle ∧ s.destroyed = false ∧ s.started = true ∧ s.joined = false then
      some { s with joined := true, parent := .joining }
    else none
  | .joinReturn =>
    if s.parent = .joining ∧ s.child = .ended then some { s with parent := .idle } else none
  | .destroy =>
    if s.parent = .idle ∧ s.destroyed = false then some { s with destroyed := true } else none
  | .setTid =>
    if s.child = .entry then some { s with tid := tids.tid .child, child := .counting } else none
  | .setName => if s.child = .naming then some { s with child := .calling } else none
  | .callFunc => if s.child = .calling then some { s with child := .func } else none
  | .func => if s.child = .func then some s else none
  | .funcReturn => if s.child = .func then some { s with child := .returned } else none
  | .crash => if s.child = .func then some { s with child := .crashed } else none
  | .exit => if s.child = .returned then some { s with child := .ended } else none

/-- The child reads or writes the object. -/
def Act.touches : Act → Bool
  | .latch a => a.thread = .child
  | .setTid | .setName | .callFunc | .func | .crash => true
  | _ => false

/-! ## What a step can do -/

inductive Move (s : Thread) : Act → Thread → Prop where
  | start (hp : s.parent = .idle) (hd : s.destroyed = false) (hs : s.started = false) :
      Move s .start { s with started := true, parent := .creating }
  | created (hp : s.parent = .creating) :
      Move s (.create true) { s with parent := .waiting, child := .entry }
  | failed (hp : s.parent = .creating) :
      Move s (.create false) { s with started := false, parent := .idle }
  | latch {a : CountDownLatch.Act Party} {l : CountDownLatch Party} (ha : s.inLatch a = true)
      (hl : s.latch.step tids a = some l) : Move s (.latch a) { s.leave a with latch := l }
  | check (hp : s.parent = .checking) : Move s .check { s with parent := .idle }
  | join (hp : s.parent = .idle) (hd : s.destroyed = false) (hs : s.started = true)
      (hj : s.joined = false) : Move s .join { s with joined := true, parent := .joining }
  | joinReturn (hp : s.parent = .joining) (hc : s.child = .ended) :
      Move s .joinReturn { s with parent := .idle }
  | destroy (hp : s.parent = .idle) (hd : s.destroyed = false) :
      Move s .destroy { s with destroyed := true }
  | setTid (hc : s.child = .entry) :
      Move s .setTid { s with tid := tids.tid .child, child := .counting }
  | setName (hc : s.child = .naming) : Move s .setName { s with child := .calling }
  | callFunc (hc : s.child = .calling) : Move s .callFunc { s with child := .func }
  | func (hc : s.child = .func) : Move s .func s
  | funcReturn (hc : s.child = .func) : Move s .funcReturn { s with child := .returned }
  | crash (hc : s.child = .func) : Move s .crash { s with child := .crashed }
  | exit (hc : s.child = .returned) : Move s .exit { s with child := .ended }

variable {tids} {s s' : Thread} {a : Act} {l : CountDownLatch Party}

theorem step_move (h : s.step tids a = some s') : s.child ≠ .crashed ∧ Move tids s a s' := by
  obtain ⟨hcrash, h⟩ := Option.ite_none_left_eq_some.mp h
  refine ⟨hcrash, ?_⟩
  cases a with
  | start =>
    obtain ⟨⟨hp, hd, hs⟩, h⟩ := Option.ite_none_right_eq_some.mp h
    cases h
    exact .start hp hd hs
  | create ok =>
    obtain ⟨hp, h⟩ := Option.ite_none_right_eq_some.mp h
    cases ok <;> cases h
    · exact .failed hp
    · exact .created hp
  | latch a =>
    obtain ⟨ha, h⟩ := Option.ite_none_right_eq_some.mp h
    obtain ⟨l, hl, rfl⟩ := Option.map_eq_some_iff.mp h
    exact .latch ha hl
  | join =>
    obtain ⟨⟨hp, hd, hs, hj⟩, h⟩ := Option.ite_none_right_eq_some.mp h
    cases h
    exact .join hp hd hs hj
  | joinReturn =>
    obtain ⟨⟨hp, hc⟩, h⟩ := Option.ite_none_right_eq_some.mp h
    cases h
    exact .joinReturn hp hc
  | destroy =>
    obtain ⟨⟨hp, hd⟩, h⟩ := Option.ite_none_right_eq_some.mp h
    cases h
    exact .destroy hp hd
  | check | setTid | setName | callFunc | func | funcReturn | crash | exit =>
    obtain ⟨hc, h⟩ := Option.ite_none_right_eq_some.mp h
    cases h
    constructor
    exact hc

/-! ## The invariant -/

/-- The child has left the latch. -/
def Child.past : Child → Bool
  | .naming | .calling | .func | .returned | .ended | .crashed => true
  | _ => false

/-- How often the child has counted `latch_` down. -/
def countDowns (s : Thread) : Nat :=
  if s.child.past = true ∨ s.latch.pc .child = .leaving .countDown then 1 else 0

/-- The two threads at the latch. -/
structure AtLatch (tids : Tids Party) (s : Thread) : Prop where
  latch : s.latch.Inv tids 1 s.countDowns
  counted : CountDownLatch.Counted 1 s.countDowns s.latch
  placed : s.latch.Placed
  parent : s.latch.pc .parent = .idle ∨ s.parent = .waiting ∧
    (s.latch.pc .parent = .within .wait ∨ s.latch.pc .parent = .leaving .wait)
  child : s.latch.pc .child = .idle ∨ s.child = .counting ∧
    (s.latch.pc .child = .within .countDown ∨ s.latch.pc .child = .leaving .countDown)

/-- The two threads outside it. -/
structure Phases (tids : Tids Party) (s : Thread) : Prop where
  unstarted : s.started = false → s.child = .none ∧ s.parent = .idle ∧ s.joined = false
  creating : s.parent = .creating → s.child = .none
  created : s.parent ≠ .creating → s.started = true → s.child ≠ .none
  tid : s.child ≠ .none → s.child ≠ .entry → s.tid = tids.tid .child
  leaving : s.latch.pc .parent = .leaving .wait → s.child.past = true
  passed : s.parent = .checking ∨ s.parent = .joining ∨ s.parent = .idle ∧ s.started = true →
    s.child.past = true
  joined : s.joined = true → s.parent = .joining ∨ s.parent = .idle ∧ s.child = .ended
  gone : s.destroyed = true → s.parent = .idle

structure Inv (tids : Tids Party) (s : Thread) : Prop where
  atLatch : s.AtLatch tids
  phases : s.Phases tids

theorem inv_new : Inv tids new where
  atLatch := ⟨CountDownLatch.inv_new, CountDownLatch.counted_new, CountDownLatch.placed_new,
    .inl rfl, .inl rfl⟩
  phases := ⟨fun _ => ⟨rfl, rfl, rfl⟩, nofun, nofun, fun h => absurd rfl h, nofun, by simp [new],
    nofun, nofun⟩

/-- A step outside the latch keeps the threads at it. -/
theorem AtLatch.congr (h : s.AtLatch tids) (hl : s'.latch = s.latch)
    (hpast : s'.child.past = s.child.past)
    (hparent : s.parent = .waiting → s'.parent = .waiting)
    (hchild : s.child = .counting → s'.child = .counting) : s'.AtLatch tids := by
  have hn : s'.countDowns = s.countDowns := by rw [countDowns, countDowns, hl, hpast]
  refine ⟨?_, ?_, ?_, ?_, ?_⟩ <;> rw [hl]
  · rw [hn]
    exact h.latch
  · rw [hn]
    exact h.counted
  · exact h.placed
  · exact h.parent.imp_right fun ⟨hp, hpc⟩ => ⟨hparent hp, hpc⟩
  · exact h.child.imp_right fun ⟨hc, hpc⟩ => ⟨hchild hc, hpc⟩

/-- `count_` is one before the child's count-down and zero behind it. -/
theorem AtLatch.count_le_iff (h : s.AtLatch tids) : s.latch.count ≤ 0 ↔ s.countDowns = 1 := by
  have hle : s.countDowns ≤ 1 := by
    unfold countDowns
    split <;> omega
  have hval : (1 : Int32).toInt = 1 := rfl
  have hmin : Int32.minValue.toInt = -2147483648 := rfl
  have hk := h.counted (by omega)
  rw [Int32.le_iff_toInt_le, hk, Int32.toInt_zero, hval]
  omega

/-- A thread that has the mutex at its test of `count_` finds the child gone from the latch if the
test lets it pass. -/
theorem AtLatch.past_of_pass (h : s.AtLatch tids) (hpc : s.latch.pc .parent = .within .wait)
    (hout : s.latch.mutex.pc .parent = .out) (hcount : s.latch.count ≤ 0) :
    s.child.past = true := by
  have hn : s.countDowns = 1 := h.count_le_iff.mp hcount
  by_contra hpast
  have hleaving : s.latch.pc .child = .leaving .countDown := by
    by_contra hno
    rw [countDowns, if_neg (by simp [hpast, hno])] at hn
    cases hn
  -- the child would have the mutex, too
  have hparent := h.latch.owner .parent (by rw [hpc]; nofun) hout
  have hchild : s.latch.mutex.owner = some .child := by
    have hfits := h.placed.fits .child
    rw [hleaving] at hfits
    cases hp : s.latch.mutex.pc .child with
    | out => exact h.latch.owner .child (by rw [hleaving]; nofun) hp
    | release => exact h.latch.mutex.owns .child (by rw [hp]; rfl)
    | acquire | assign | block | blocked | reacquire | restore => rw [hp] at hfits; cases hfits
  rw [hparent] at hchild
  cases hchild

/-- Which thread a step of the latch can be of, from where the two are. -/
theorem AtLatch.who (h : s.AtLatch tids) {i : Party} :
    (∀ f, s.latch.pc i = .within f → i = .parent ∧ f = .wait ∨ i = .child ∧ f = .countDown) ∧
    (∀ f, s.latch.pc i = .leaving f → i = .parent ∧ f = .wait ∨ i = .child ∧ f = .countDown) := by
  cases i with
  | parent =>
    rcases h.parent with hpc | ⟨-, hpc | hpc⟩ <;> rw [hpc] <;> simp [eq_comm]
  | child =>
    rcases h.child with hpc | ⟨-, hpc | hpc⟩ <;> rw [hpc] <;> simp [eq_comm]

/-- What a step of the latch does to the places of the two threads, and to the count. -/
theorem AtLatch.latchStep (h : s.AtLatch tids) {a : CountDownLatch.Act Party}
    (ha : s.inLatch a = true) (hl : s.latch.step tids a = some l) :
    AtLatch tids { s.leave a with latch := l } := by
  have hmove := CountDownLatch.step_move hl
  suffices hplaces : countDowns { s.leave a with latch := l } =
      s.countDowns + (if a.countsDown then 1 else 0) ∧
      (l.pc .parent = .idle ∨ (s.leave a).parent = .waiting ∧
        (l.pc .parent = .within .wait ∨ l.pc .parent = .leaving .wait)) ∧
      (l.pc .child = .idle ∨ (s.leave a).child = .counting ∧
        (l.pc .child = .within .countDown ∨ l.pc .child = .leaving .countDown)) by
    obtain ⟨hn, hparent, hchild⟩ := hplaces
    refine ⟨?_, ?_, h.placed.step hl, hparent, hchild⟩
    · rw [hn]
      exact h.latch.step hmove
    · rw [hn]
      exact h.counted.step hl
  cases hmove with
  | @call i f m hpc hm =>
    cases i with
    | parent =>
      obtain ⟨hp, rfl⟩ : s.parent = .waiting ∧ f = .wait := of_decide_eq_true ha
      exact ⟨rfl, .inr ⟨hp, .inl rfl⟩, h.child⟩
    | child =>
      obtain ⟨hc, rfl⟩ : s.child = .counting ∧ f = .countDown := of_decide_eq_true ha
      refine ⟨?_, h.parent, .inr ⟨hc, .inl rfl⟩⟩
      have hn : s.countDowns = 0 := if_neg (by simp [hc, hpc, Child.past])
      rw [hn]
      exact if_neg (by simp [leave, CountDownLatch.goto, hc, Child.past])
  | mutex hb hm => exact ⟨rfl, h.parent, h.child⟩
  | again hcount hm => exact ⟨rfl, h.parent, h.child⟩
  | unlock hm => exact ⟨rfl, h.parent, h.child⟩
  | @pass i hpc hout hcount =>
    obtain ⟨rfl, -⟩ | ⟨-, hf⟩ := h.who.1 _ hpc
    · have hp : s.parent = .waiting := by
        rcases h.parent with hidle | ⟨hp, -⟩
        · rw [hidle] at hpc
          cases hpc
        · exact hp
      exact ⟨rfl, .inr ⟨hp, .inr rfl⟩, h.child⟩
    · cases hf
  | @countDown i overflow k mutex hpc hout hcount hmutex =>
    obtain ⟨-, hf⟩ | ⟨rfl, -⟩ := h.who.1 _ hpc
    · cases hf
    · have hc : s.child = .counting := by
        rcases h.child with hidle | ⟨hc, -⟩
        · rw [hidle] at hpc
          cases hpc
        · exact hc
      refine ⟨?_, h.parent, .inr ⟨hc, .inr rfl⟩⟩
      have hn : s.countDowns = 0 := if_neg (by simp [hc, hpc, Child.past])
      rw [hn]
      exact if_pos (.inr rfl)
  | @ret i f m hpc hm =>
    obtain ⟨rfl, rfl⟩ | ⟨rfl, rfl⟩ := h.who.2 _ hpc
    · exact ⟨rfl, .inl rfl, h.child⟩
    · refine ⟨?_, h.parent, .inl rfl⟩
      have hn : s.countDowns = 1 := if_pos (.inr hpc)
      rw [hn]
      rfl

theorem Phases.started_of (h : s.Phases tids) (hp : s.parent ≠ .idle) : s.started = true := by
  cases hs : s.started with
  | false => exact absurd (h.unstarted hs).2.1 hp
  | true => rfl

/-- Inside `start()` the object is not joined. -/
theorem Phases.joined_of (h : s.Phases tids) (hidle : s.parent ≠ .idle)
    (hjoining : s.parent ≠ .joining) : s.joined = false := by
  cases hj : s.joined with
  | false => rfl
  | true =>
    rcases h.joined hj with hp | ⟨hp, -⟩
    · exact absurd hp hjoining
    · exact absurd hp hidle

theorem Phases.destroyed_of (h : s.Phases tids) (hidle : s.parent ≠ .idle) :
    s.destroyed = false := by
  cases hd : s.destroyed with
  | false => rfl
  | true => exact absurd (h.gone hd) hidle

/-- The parent goes on in `start()` or `join()` behind the child's count. -/
theorem Phases.parentGoes (h : s.Phases tids) {p : Parent} (hidle : s.parent ≠ .idle)
    (hpast : s.child.past = true) (hcreating : p ≠ .creating)
    (hjoined : s.joined = true → p = .joining ∨ p = .idle ∧ s.child = .ended) :
    Phases tids { s with parent := p } where
  unstarted hs := absurd (h.unstarted hs).2.1 hidle
  creating hp := absurd hp hcreating
  created _ _ := by
    intro hc
    replace hc : s.child = .none := hc
    rw [hc] at hpast
    cases hpast
  tid := h.tid
  leaving := h.leaving
  passed _ := hpast
  joined := hjoined
  gone hd := absurd (h.gone hd) hidle

/-- The child goes on. -/
theorem Phases.childGoes (h : s.Phases tids) {c : Child} {t : Int} (hnone : s.child ≠ .none)
    (hended : s.child ≠ .ended) (hc : c ≠ .none) (ht : t = tids.tid .child)
    (hpast : s.child.past = true → c.past = true) :
    Phases tids { s with tid := t, child := c } where
  unstarted hs := absurd (h.unstarted hs).1 hnone
  creating hp := absurd (h.creating hp) hnone
  created _ _ := hc
  tid _ _ := ht
  leaving hl := hpast (h.leaving hl)
  passed hp := hpast (h.passed hp)
  joined hj := (h.joined hj).imp_right fun ⟨_, hc'⟩ => absurd hc' hended
  gone := h.gone

/-- The parent leaves the latch behind the child, and the child behind its count. -/
theorem Phases.latchStep (h : s.Phases tids) (hat : s.AtLatch tids)
    {a : CountDownLatch.Act Party} (ha : s.inLatch a = true) (hl : s.latch.step tids a = some l) :
    Phases tids { s.leave a with latch := l } := by
  have hmove := CountDownLatch.step_move hl
  cases hmove with
  | @call i f m hpc hm =>
    refine { h with leaving := fun hleaving => ?_ }
    cases i with
    | parent => cases hleaving
    | child => exact h.leaving hleaving
  | mutex hb hm => exact { h with }
  | again hcount hm => exact { h with }
  | unlock hm => exact { h with }
  | @pass i hpc hout hcount =>
    obtain ⟨rfl, -⟩ | ⟨-, hf⟩ := hat.who.1 _ hpc
    · exact { h with leaving := fun _ => hat.past_of_pass hpc hout hcount }
    · cases hf
  | @countDown i overflow k mutex hpc hout hcount hmutex =>
    obtain ⟨-, hf⟩ | ⟨rfl, -⟩ := hat.who.1 _ hpc
    · cases hf
    · exact { h with }
  | @ret i f m hpc hm =>
    obtain ⟨rfl, rfl⟩ | ⟨rfl, rfl⟩ := hat.who.2 _ hpc
    · have hp : s.parent = .waiting := by
        rcases hat.parent with hidle | ⟨hp, -⟩
        · rw [hidle] at hpc
          cases hpc
        · exact hp
      have hj := h.joined_of (by rw [hp]; nofun) (by rw [hp]; nofun)
      have h' := h.parentGoes (p := .checking) (by rw [hp]; nofun) (h.leaving hpc) nofun
        fun hj' => absurd (hj.symm.trans hj') nofun
      exact { h' with leaving := nofun }
    · have hc : s.child = .counting := by
        rcases hat.child with hidle | ⟨hc, -⟩
        · rw [hidle] at hpc
          cases hpc
        · exact hc
      have ht := h.tid (by rw [hc]; nofun) (by rw [hc]; nofun)
      exact { h.childGoes (c := .naming) (by rw [hc]; nofun) (by rw [hc]; nofun) nofun ht
        fun _ => rfl with }

/-- **One step** keeps the invariant. -/
theorem Inv.step (h : s.Inv tids) (hs : Move tids s a s') : s'.Inv tids := by
  obtain ⟨hat, hph⟩ := h
  cases hs with
  | start hp hd hst =>
    obtain ⟨hc, -, hj⟩ := hph.unstarted hst
    exact ⟨hat.congr rfl rfl (fun e => absurd (hp.symm.trans e) nofun) id,
      { hph with
        unstarted := nofun
        creating := fun _ => hc
        created := fun hne => absurd rfl hne
        passed := by simp
        joined := fun hj' => absurd (hj.symm.trans hj') nofun
        gone := fun hd' => absurd (hd.symm.trans hd') nofun }⟩
  | created hp =>
    have hc := hph.creating hp
    have hj := hph.joined_of (by rw [hp]; nofun) (by rw [hp]; nofun)
    have hd := hph.destroyed_of (by rw [hp]; nofun)
    have hst := hph.started_of (by rw [hp]; nofun)
    refine ⟨hat.congr rfl (by simp [hc, Child.past]) (fun _ => rfl)
      fun e => absurd (hc.symm.trans e) nofun, fun hst' => ?_, nofun, fun _ _ => nofun,
      fun _ hne => absurd rfl hne, fun hl => ?_, by simp, fun hj' => ?_, fun hd' => ?_⟩
    · exact absurd (hst.symm.trans hst') nofun
    · have hpast := hph.leaving hl
      rw [hc] at hpast
      cases hpast
    · exact absurd (hj.symm.trans hj') nofun
    · exact absurd (hd.symm.trans hd') nofun
  | failed hp =>
    have hc := hph.creating hp
    have hj := hph.joined_of (by rw [hp]; nofun) (by rw [hp]; nofun)
    exact ⟨hat.congr rfl rfl (fun e => absurd (hp.symm.trans e) nofun) id,
      { hph with
        unstarted := fun _ => ⟨hc, rfl, hj⟩
        creating := nofun
        created := nofun
        passed := by simp
        joined := fun hj' => absurd (hj.symm.trans hj') nofun
        gone := fun _ => rfl }⟩
  | latch ha hl => exact ⟨hat.latchStep ha hl, hph.latchStep hat ha hl⟩
  | check hp =>
    have hj := hph.joined_of (by rw [hp]; nofun) (by rw [hp]; nofun)
    exact ⟨hat.congr rfl rfl (fun e => absurd (hp.symm.trans e) nofun) id,
      hph.parentGoes (by rw [hp]; nofun) (hph.passed (.inl hp)) nofun
        fun hj' => absurd (hj.symm.trans hj') nofun⟩
  | join hp hd hst hj =>
    exact ⟨hat.congr rfl rfl (fun e => absurd (hp.symm.trans e) nofun) id,
      { hph with
        unstarted := fun hst' => absurd (hst.symm.trans hst') nofun
        creating := nofun
        created := fun _ => hph.created (by rw [hp]; nofun)
        passed := fun _ => hph.passed (.inr (.inr ⟨hp, hst⟩))
        joined := fun _ => .inl rfl
        gone := fun hd' => absurd (hd.symm.trans hd') nofun }⟩
  | joinReturn hp hc =>
    exact ⟨hat.congr rfl rfl (fun e => absurd (hp.symm.trans e) nofun) id,
      hph.parentGoes (by rw [hp]; nofun) (hph.passed (.inr (.inl hp))) nofun
        fun _ => .inr ⟨rfl, hc⟩⟩
  | destroy hp hd => exact ⟨hat.congr rfl rfl id id, { hph with gone := fun _ => hp }⟩
  | setTid hc =>
    exact ⟨hat.congr rfl (by simp [hc, Child.past]) id fun _ => rfl,
      hph.childGoes (by rw [hc]; nofun) (by rw [hc]; nofun) nofun rfl (by simp [hc, Child.past])⟩
  | func hc => exact ⟨hat, hph⟩
  | setName hc | callFunc hc | funcReturn hc | crash hc | exit hc =>
    have ht := hph.tid (by rw [hc]; nofun) (by rw [hc]; nofun)
    exact ⟨hat.congr rfl (by simp [hc, Child.past]) id fun e => absurd (hc.symm.trans e) nofun,
      hph.childGoes (by rw [hc]; nofun) (by rw [hc]; nofun) nofun ht fun _ => rfl⟩

theorem inv_exec {acts : List Act} (h : Lts.exec (Thread.step tids) new acts = some s) :
    s.Inv tids :=
  Lts.exec_keeps (fun _ _ _ hi hs => hi.step (step_move hs).2) inv_new h

/-! ## After `start()` -/

/-- Nobody is in `start()`, and the child is not on its way to the latch. -/
structure Quiet (s : Thread) : Prop where
  waiting : s.parent ≠ .waiting
  entry : s.child ≠ .entry
  counting : s.child ≠ .counting

theorem Quiet.not_latch (h : s.Quiet) (hinv : s.Inv tids) {a : CountDownLatch.Act Party} :
    s.step tids (.latch a) = none := by
  rw [Option.eq_none_iff_forall_ne_some]
  intro s' hs
  obtain ⟨-, hmove⟩ := step_move hs
  cases hmove with
  | latch ha hl =>
    have hidle : ∀ i, s.latch.pc i = .idle := by
      intro i
      cases i with
      | parent => exact hinv.atLatch.parent.resolve_right fun ⟨hp, _⟩ => h.waiting hp
      | child => exact hinv.atLatch.child.resolve_right fun ⟨hc, _⟩ => h.counting hc
    have hcall : a.isCall = true := by
      by_contra hno
      exact hinv.atLatch.placed.busy hl (Bool.eq_false_iff.mpr hno) (hidle _)
    cases a with
    | call i f =>
      cases i with
      | parent => exact h.waiting (of_decide_eq_true ha).1
      | child => exact h.counting (of_decide_eq_true ha).1
    | mutex | test | countDown | unlock | ret => cases hcall

/-- Without another `pthread_create` it stays so. -/
theorem Quiet.step (h : s.Quiet) (hinv : s.Inv tids) (hs : s.step tids a = some s')
    (ha : a ≠ .create true) : s'.Quiet := by
  have hmove := (step_move hs).2
  cases hmove with
  | created => exact absurd rfl ha
  | latch =>
    rw [h.not_latch hinv] at hs
    cases hs
  | setTid hc => exact absurd hc h.entry
  | func => exact h
  | start | failed | check | join | joinReturn => exact { h with waiting := nofun }
  | destroy => exact { h with }
  | setName | callFunc | funcReturn | crash | exit =>
    exact { h with entry := nofun, counting := nofun }

/-- The thread is started, and `start()` has got its child. -/
structure Settled (s : Thread) : Prop where
  quiet : s.Quiet
  started : s.started = true
  creating : s.parent ≠ .creating

theorem Settled.step (h : s.Settled) (hinv : s.Inv tids) (hs : s.step tids a = some s') :
    s'.Settled ∧ (∀ b, a ≠ .latch b) ∧ a ≠ .setTid := by
  have hmove := (step_move hs).2
  have hlatch : ∀ b, a ≠ .latch b := by
    rintro b rfl
    rw [h.quiet.not_latch hinv] at hs
    cases hs
  have hcreate : a ≠ .create true := by
    rintro rfl
    cases hmove with
    | created hp => exact h.creating hp
  refine ⟨⟨h.quiet.step hinv hs hcreate, ?_, ?_⟩, hlatch, ?_⟩
  · cases hmove with
    | latch => exact absurd rfl (hlatch _)
    | failed hp => exact absurd hp h.creating
    | start => rfl
    | _ => exact h.started
  · cases hmove with
    | latch => exact absurd rfl (hlatch _)
    | start hp hd hst => exact absurd (hst.symm.trans h.started) nofun
    | created | failed | check | join | joinReturn => exact nofun
    | destroy | setTid | setName | callFunc | func | funcReturn | crash | exit => exact h.creating
  · rintro rfl
    cases hmove with
    | setTid hc => exact h.quiet.entry hc

theorem Settled.exec (h : s.Settled) (hinv : s.Inv tids) {acts : List Act}
    (he : Lts.exec (Thread.step tids) s acts = some s') :
    ∀ a ∈ acts, (∀ b, a ≠ .latch b) ∧ a ≠ .setTid := by
  induction acts generalizing s with
  | nil => nofun
  | cons a acts ih =>
    obtain ⟨u, hu, he⟩ := Lts.exec_cons he
    obtain ⟨hsettled, ha⟩ := h.step hinv hu
    intro b hb
    rcases List.mem_cons.mp hb with rfl | hb
    · exact ha
    · exact ih hsettled (hinv.step (step_move hu).2) he b hb

/-- The child is behind `func_()`. -/
theorem returned_exec {acts : List Act} (h : Lts.exec (Thread.step tids) new acts = some s)
    (hc : s.child = .returned ∨ s.child = .ended) : Act.funcReturn ∈ acts := by
  refine Lts.exec_inv (P := fun acts s => s.child = .returned ∨ s.child = .ended →
    Act.funcReturn ∈ acts) ?_ ?_ h hc
  · rintro (h | h) <;> cases h
  · intro acts u a u' _ ih hs hc
    have hmove := (step_move hs).2
    have before : u.child = .returned ∨ u.child = .ended → Act.funcReturn ∈ acts ++ [a] :=
      fun hc => List.mem_append_left _ (ih hc)
    cases hmove with
    | funcReturn => exact List.mem_append_right _ List.mem_cons_self
    | exit hr => exact before (.inl hr)
    | @latch b l hb hl =>
      refine before ?_
      cases b with
      | ret i f =>
        cases i with
        | parent => exact hc
        | child => rcases hc with hc | hc <;> cases hc
      | call | mutex | test | countDown | unlock => exact hc
    | start | failed | check | join | joinReturn | destroy | func => exact before hc
    | created | setTid | setName | callFunc | crash => rcases hc with hc | hc <;> cases hc

theorem settled_of_check (h : s.Inv tids) (hp : s.parent = .checking) : s.Settled := by
  have hpast := h.phases.passed (.inl hp)
  refine ⟨⟨by rw [hp]; nofun, ?_, ?_⟩, h.phases.started_of (by rw [hp]; nofun), by rw [hp]; nofun⟩
  · intro hc
    rw [hc] at hpast
    cases hpast
  · intro hc
    rw [hc] at hpast
    cases hpast

/-- **`start()` and `join()`.** In every run, `start()` returns with the child's tid in `tid_`, so
the assertion there holds, and behind it nobody touches `latch_` or writes `tid_` again; and
`join()` returns after `func_` has. -/
theorem start_join (tids : Tids Party) (hpos : 0 < tids.tid .child) (acts : List Act) (s : Thread)
    (h : Lts.exec (Thread.step tids) new acts = some s) :
    (∀ before after u, acts = before ++ .check :: after →
      Lts.exec (Thread.step tids) new before = some u →
      0 < u.tid ∧ u.tid = tids.tid .child ∧ ∀ a ∈ after, (∀ b, a ≠ .latch b) ∧ a ≠ .setTid) ∧
    ∀ before after, acts = before ++ .joinReturn :: after → Act.funcReturn ∈ before := by
  constructor
  · intro before after u e hu
    rw [e, Lts.exec_append, hu, Option.bind_some] at h
    obtain ⟨v, hv, h⟩ := Lts.exec_cons h
    have hinv := inv_exec hu
    have hp : u.parent = .checking := by
      cases (step_move hv).2 with
      | check hp => exact hp
    have hsettled := settled_of_check hinv hp
    have htid := hinv.phases.tid
      (hinv.phases.created hsettled.creating hsettled.started) hsettled.quiet.entry
    exact ⟨by rw [htid]; exact hpos, htid,
      (hsettled.step hinv hv).1.exec (hinv.step (step_move hv).2) h⟩
  · intro before after e
    rw [e] at h
    obtain ⟨u, hu, h⟩ := Lts.exec_append_some h
    obtain ⟨v, hv, -⟩ := Lts.exec_cons h
    cases (step_move hv).2 with
    | joinReturn hp hc => exact returned_exec hu (.inr hc)

def parentAndChild : Tids Party :=
  ⟨fun p => if p = .child then 102 else 101, by rintro (_ | _) (_ | _) <;> decide,
    by rintro (_ | _) <;> decide⟩

/-- The child counts down while the parent waits, woken once for nothing. -/
def startedLate : List Act :=
  [.start, .create false, .start, .create true, .latch (.call .parent .wait),
    .latch (.mutex (.acquire .parent)), .latch (.mutex (.assign .parent)), .latch (.test .parent),
    .latch (.mutex (.block .parent)), .latch (.mutex (.wake .parent)), .setTid,
    .latch (.call .child .countDown), .latch (.mutex (.acquire .child)),
    .latch (.mutex (.assign .child)), .latch (.countDown .child 0), .latch (.unlock .child),
    .latch (.ret .child .countDown), .latch (.mutex (.reacquire .parent)),
    .latch (.mutex (.restore .parent)), .latch (.test .parent), .latch (.unlock .parent),
    .latch (.ret .parent .wait)]

theorem start_join_startedLate :
    ∃ u s, Lts.exec (Thread.step parentAndChild) new startedLate = some u ∧
      Lts.exec (Thread.step parentAndChild) new
        (startedLate ++ .check :: [.setName, .join, .callFunc, .func, .funcReturn, .exit,
          .joinReturn]) = some s ∧ u.tid = 102 := by
  obtain ⟨s, hs⟩ : ∃ s, Lts.exec (Thread.step parentAndChild) new
      (startedLate ++ .check :: [.setName, .join, .callFunc, .func, .funcReturn, .exit,
        .joinReturn]) = some s := ⟨_, rfl⟩
  obtain ⟨u, hu, -⟩ := Lts.exec_append_some hs
  exact ⟨u, s, hu, hs, ((start_join parentAndChild (by decide) _ s hs).1 _ _ u rfl hu).2.1⟩

/-! ## The end of the object -/

/-- The child has still to use the object, behind the latch. -/
def Child.busy : Child → Bool
  | .naming | .calling | .func => true
  | _ => false

/-- The object is gone and the child is through with it. -/
structure Over (s : Thread) : Prop where
  quiet : s.Quiet
  gone : s.destroyed = true
  idle : s.parent = .idle
  busy : s.child.busy = false

theorem Over.step (h : s.Over) (hinv : s.Inv tids) (hs : s.step tids a = some s') :
    s'.Over ∧ a.touches = false := by
  have hmove := (step_move hs).2
  cases hmove with
  | start hp hd | join hp hd | destroy hp hd => exact absurd (hd.symm.trans h.gone) nofun
  | created hp | failed hp | check hp | joinReturn hp => exact absurd (hp.symm.trans h.idle) nofun
  | latch =>
    rw [h.quiet.not_latch hinv] at hs
    cases hs
  | setTid hc => exact absurd hc h.quiet.entry
  | setName hc | callFunc hc | func hc | funcReturn hc | crash hc =>
    have hbusy := h.busy
    rw [hc] at hbusy
    cases hbusy
  | exit hc => exact ⟨⟨h.quiet.step hinv hs nofun, h.gone, h.idle, rfl⟩, rfl⟩

theorem Over.exec (h : s.Over) (hinv : s.Inv tids) {acts : List Act}
    (he : Lts.exec (Thread.step tids) s acts = some s') : ∀ a ∈ acts, a.touches = false := by
  induction acts generalizing s with
  | nil => nofun
  | cons a acts ih =>
    obtain ⟨u, hu, he⟩ := Lts.exec_cons he
    obtain ⟨hover, ha⟩ := h.step hinv hu
    intro b hb
    rcases List.mem_cons.mp hb with rfl | hb
    · exact ha
    · exact ih hover (hinv.step (step_move hu).2) he b hb

/-- The child can use the object as soon as it gets on. -/
theorem busy_touches (tids : Tids Party) (h : s.child.busy = true) :
    ∃ a s', a.touches = true ∧ s.step tids a = some s' := by
  cases hc : s.child with
  | naming => exact ⟨.setName, _, rfl, by simp [Thread.step, hc]; rfl⟩
  | calling => exact ⟨.callFunc, _, rfl, by simp [Thread.step, hc]; rfl⟩
  | func => exact ⟨.func, _, rfl, by simp [Thread.step, hc]; rfl⟩
  | none | entry | counting | returned | ended | crashed => rw [hc] at h; cases h

/-- **When the child comes to an object that is gone**: from any state of any run the destructor can
be followed by a use of the object exactly if the thread is started and not joined, and the child
has not returned from `func_`. -/
theorem touched_iff (tids : Tids Party) (acts : List Act) (s : Thread)
    (h : Lts.exec (Thread.step tids) new acts = some s) :
    (∃ post t, Lts.exec (Thread.step tids) s (.destroy :: post) = some t ∧
      ∃ a ∈ post, a.touches = true) ↔
    s.parent = .idle ∧ s.destroyed = false ∧ s.started = true ∧ s.joined = false ∧
      s.child.busy = true := by
  have hinv := inv_exec h
  constructor
  · rintro ⟨post, t, he, a, ha, htouches⟩
    obtain ⟨u, hu, he⟩ := Lts.exec_cons he
    have hinvu := hinv.step (step_move hu).2
    obtain ⟨hp, hd, rfl⟩ : s.parent = .idle ∧ s.destroyed = false ∧
        u = { s with destroyed := true } := by
      cases (step_move hu).2 with
      | destroy hp hd => exact ⟨hp, hd, rfl⟩
    have hquiet : s.Quiet := by
      refine ⟨by rw [hp]; nofun, fun hc => ?_, fun hc => ?_⟩
      all_goals
        cases hst : s.started with
        | false => exact absurd (hc.symm.trans (hinv.phases.unstarted hst).1) nofun
        | true =>
          have hpast := hinv.phases.passed (.inr (.inr ⟨hp, hst⟩))
          rw [hc] at hpast
          cases hpast
    have hbusy : s.child.busy = true := by
      by_contra hno
      have hover : Over { s with destroyed := true } :=
        ⟨{ hquiet with }, rfl, hp, Bool.eq_false_iff.mpr hno⟩
      exact absurd ((hover.exec hinvu he a ha).symm.trans htouches) nofun
    refine ⟨hp, hd, ?_, ?_, hbusy⟩
    · by_contra hst
      rw [(hinv.phases.unstarted (Bool.eq_false_iff.mpr hst)).1] at hbusy
      cases hbusy
    · by_contra hj
      rcases hinv.phases.joined (by simpa using hj) with hp' | ⟨-, hc⟩
      · exact absurd (hp.symm.trans hp') nofun
      · rw [hc] at hbusy
        cases hbusy
  · rintro ⟨hp, hd, -, -, hbusy⟩
    have hcrash : s.child ≠ .crashed := by
      intro hc
      rw [hc] at hbusy
      cases hbusy
    obtain ⟨a, t, htouches, ht⟩ :=
      busy_touches (s := { s with destroyed := true }) tids hbusy
    refine ⟨[a], t, ?_, a, List.mem_cons_self, htouches⟩
    have hdestroy : s.step tids .destroy = some { s with destroyed := true } := by
      rw [Thread.step, if_neg hcrash]
      exact if_pos ⟨hp, hd⟩
    rw [Lts.exec, hdestroy, Option.bind_some, Lts.exec, ht]
    rfl

/-- The destructor comes right behind `start()`. -/
theorem touched_iff_detached :
    ∃ s, Lts.exec (Thread.step parentAndChild) new (startedLate ++ [.check]) = some s ∧
      ∃ post t, Lts.exec (Thread.step parentAndChild) s (.destroy :: post) = some t ∧
        ∃ a ∈ post, a.touches = true := by
  obtain ⟨s, hs, hp, hd, hst, hj, hc⟩ : ∃ s,
      Lts.exec (Thread.step parentAndChild) new (startedLate ++ [.check]) = some s ∧
        s.parent = .idle ∧ s.destroyed = false ∧ s.started = true ∧ s.joined = false ∧
        s.child = .naming := ⟨_, rfl, rfl, rfl, rfl, rfl, rfl⟩
  exact ⟨s, hs, (touched_iff parentAndChild _ s hs).mpr ⟨hp, hd, hst, hj, by rw [hc]; rfl⟩⟩

end Thread

end MultiThreadLog
