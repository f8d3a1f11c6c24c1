import MultiThreadLog.Lib.CondVar
import MultiThreadLog.Sync.Mutex

/-!
# `CountDownLatch`

Any threads call `wait()` and `countDown()` of one latch (`CountDownLatch.cc`). Its `mutex_` is a
`MutexLock`, and the waits of `condition_` are those of that model: a thread at `.blocked` waits,
and a thread at `.reacquire` is woken, by `notifyAll()` or spuriously, and goes on when it gets the
mutex. `count_` is read and written by the owner of the mutex only, so what `countDown()` does
between `lock()` and `unlock()` is one step, as is the test of the loop in `wait()`.

The broadcast is sent by the step from one to zero and by no other. That is enough because a thread
starts to wait with the mutex and a positive `count_` in its hands: nobody waits unless `count_` is
positive (`Inv`). And a `wait()` ends at a test that finds `count_` no longer positive, for which
it takes as many `countDown()` calls as the latch was made with (`wait_held_and_released`).
-/

namespace MultiThreadLog

/-- The functions that threads call. -/
inductive CountDownLatch.Call where
  | wait
  | countDown
  deriving DecidableEq

/-- Where a thread is: in no function of the latch, in one with its work to be done, or in the
destructor of `MutexLockGuard` at its end. -/
inductive CountDownLatch.Pc where
  | idle
  | within (f : CountDownLatch.Call)
  | leaving (f : CountDownLatch.Call)
  deriving DecidableEq

structure CountDownLatch (ι : Type) where
  mutex : MutexLock ι
  count : Int32
  pc : ι → CountDownLatch.Pc

namespace CountDownLatch

variable {ι : Type}

def new (count : Int32) : CountDownLatch ι := ⟨.new, count, fun _ => .idle⟩

/-- The waiters of `condition_` among the threads. -/
def condition : CondVar MutexLock.Pc where
  waits p := p = .blocked
  woken p := p = .reacquire
  wake _ := .reacquire
  woken_wake _ _ := rfl
  not_waits_wake _ _ := rfl
  not_woken p h := by
    rw [decide_eq_true_eq.mp h]
    rfl

def notifyAll (m : MutexLock ι) : MutexLock ι := { m with pc := fun i => condition.awaken (m.pc i) }

/-- `--count_`; where it overflows C++ says nothing, and the result is any number. -/
def decrement (n overflow : Int32) : Int32 := if n = Int32.minValue then overflow else n - 1

variable (tids : Tids ι) [DecidableEq ι]

def goto (s : CountDownLatch ι) (i : ι) (p : Pc) : CountDownLatch ι :=
  { s with pc := Function.update s.pc i p }

/-- A step of a thread. -/
inductive Act (ι : Type) where
  /-- `wait()` or `countDown()` is called, and `lock()`. -/
  | call (i : ι) (f : Call)
  /-- A step in the middle of `lock()` or of `condition_.wait()`. -/
  | mutex (a : MutexLock.Act ι)
  /-- `while (count_ > 0)`, and if so `condition_.wait()` is called. -/
  | test (i : ι)
  /-- What `countDown()` does with the mutex. -/
  | countDown (i : ι) (overflow : Int32)
  /-- `unlock()` is called. -/
  | unlock (i : ι)
  /-- The mutex is given back and the function returns. -/
  | ret (i : ι) (f : Call)

/-- The mutex is in the middle of `lock()` or of a wait. -/
def inside : MutexLock.Act ι → Bool
  | .acquire _ | .assign _ | .block _ | .wake _ | .reacquire _ | .restore _ => true
  | .lock _ | .unlock _ | .release _ | .wait _ => false

def Act.countsDown : Act ι → Bool
  | .countDown _ _ => true
  | _ => false

def step (s : CountDownLatch ι) : Act ι → Option (CountDownLatch ι)
  | .call i f =>
    if s.pc i = .idle then
      (s.mutex.step tids (.lock i)).map fun m => { s.goto i (.within f) with mutex := m }
    else none
  | .mutex a => if inside a then (s.mutex.step tids a).map fun m => { s with mutex := m } else none
  | .test i =>
    if s.pc i = .within .wait ∧ s.mutex.pc i = .out then
      if 0 < s.count then (s.mutex.step tids (.wait i)).map fun m => { s with mutex := m }
      else some (s.goto i (.leaving .wait))
    else none
  | .countDown i overflow =>
    if s.pc i = .within .countDown ∧ s.mutex.pc i = .out then
      let count := decrement s.count overflow
      let mutex := if count = 0 then notifyAll s.mutex else s.mutex
      some { s.goto i (.leaving .countDown) with count, mutex }
    else none
  | .unlock i =>
    if s.pc i = .leaving .wait ∨ s.pc i = .leaving .countDown then
      (s.mutex.step tids (.unlock i)).map fun m => { s with mutex := m }
    else none
  | .ret i f =>
    if s.pc i = .leaving f then
      (s.mutex.step tids (.release i)).map fun m => { s.goto i .idle with mutex := m }
    else none

/-! ## What a step can do -/

inductive Move (s : CountDownLatch ι) : Act ι → CountDownLatch ι → Prop where
  | call {i : ι} {f : Call} {m : MutexLock ι} (hpc : s.pc i = .idle)
      (hm : s.mutex.step tids (.lock i) = some m) :
      Move s (.call i f) { s.goto i (.within f) with mutex := m }
  | mutex {a : MutexLock.Act ι} {m : MutexLock ι} (ha : inside a = true)
      (hm : s.mutex.step tids a = some m) : Move s (.mutex a) { s with mutex := m }
  | again {i : ι} {m : MutexLock ι} (hcount : 0 < s.count)
      (hm : s.mutex.step tids (.wait i) = some m) : Move s (.test i) { s with mutex := m }
  | pass {i : ι} (hpc : s.pc i = .within .wait) (hout : s.mutex.pc i = .out)
      (hcount : s.count ≤ 0) : Move s (.test i) (s.goto i (.leaving .wait))
  | countDown {i : ι} {overflow count : Int32} {mutex : MutexLock ι}
      (hpc : s.pc i = .within .countDown) (hout : s.mutex.pc i = .out)
      (hcount : count = decrement s.count overflow)
      (hmutex : count = 0 ∧ mutex = notifyAll s.mutex ∨ count ≠ 0 ∧ mutex = s.mutex) :
      Move s (.countDown i overflow) { s.goto i (.leaving .countDown) with count, mutex }
  | unlock {i : ι} {m : MutexLock ι} (hm : s.mutex.step tids (.unlock i) = some m) :
      Move s (.unlock i) { s with mutex := m }
  | ret {i : ι} {f : Call} {m : MutexLock ι} (hpc : s.pc i = .leaving f)
      (hm : s.mutex.step tids (.release i) = some m) :
      Move s (.ret i f) { s.goto i .idle with mutex := m }

variable {tids} {s s' : CountDownLatch ι} {m : MutexLock ι} {a : Act ι} {i j : ι} {n : Nat}
  {count : Int32}

theorem step_move (h : s.step tids a = some s') : Move tids s a s' := by
  cases a with
  | call i f =>
    obtain ⟨hpc, h⟩ := Option.ite_none_right_eq_some.mp h
    obtain ⟨m, hm, rfl⟩ := Option.map_eq_some_iff.mp h
    exact .call hpc hm
  | mutex a =>
    obtain ⟨ha, h⟩ := Option.ite_none_right_eq_some.mp h
    obtain ⟨m, hm, rfl⟩ := Option.map_eq_some_iff.mp h
    exact .mutex ha hm
  | test i =>
    obtain ⟨⟨hpc, hout⟩, h⟩ := Option.ite_none_right_eq_some.mp h
    split at h
    · rename_i hcount
      obtain ⟨m, hm, rfl⟩ := Option.map_eq_some_iff.mp h
      exact .again hcount hm
    · rename_i hcount
      cases h
      exact .pass hpc hout (Int32.not_lt.mp hcount)
  | countDown i overflow =>
    obtain ⟨⟨hpc, hout⟩, h⟩ := Option.ite_none_right_eq_some.mp h
    cases h
    refine .countDown hpc hout rfl ?_
    split
    · rename_i h0
      exact .inl ⟨h0, rfl⟩
    · rename_i h0
      exact .inr ⟨h0, rfl⟩
  | unlock i =>
    obtain ⟨-, h⟩ := Option.ite_none_right_eq_some.mp h
    obtain ⟨m, hm, rfl⟩ := Option.map_eq_some_iff.mp h
    exact .unlock hm
  | ret i f =>
    obtain ⟨hpc, h⟩ := Option.ite_none_right_eq_some.mp h
    obtain ⟨m, hm, rfl⟩ := Option.map_eq_some_iff.mp h
    exact .ret hpc hm

/-! ## Counting -/

/-- Where the count is positive the decrement does not overflow. -/
theorem decrement_toInt {k : Int32} (h : 0 < k) (overflow : Int32) :
    (decrement k overflow).toInt = k.toInt - 1 := by
  have hpos := Int32.lt_iff_toInt_lt.mp h
  have hlt := k.toInt_lt
  have hmin : k ≠ Int32.minValue := by
    rintro rfl
    exact absurd h (by decide)
  unfold decrement
  rw [if_neg hmin, Int32.toInt_sub]
  simp only [Int32.toInt_zero, Int32.toInt_one] at hpos ⊢
  exact Int.bmod_eq_of_le (by omega) (by omega)

theorem decrement_pos {k overflow : Int32} (h : 0 < k) (hne : decrement k overflow ≠ 0) :
    0 < decrement k overflow := by
  have hdec := decrement_toInt h overflow
  have hne' : (decrement k overflow).toInt ≠ 0 := fun e => hne (Int32.toInt_inj.mp e)
  rw [Int32.lt_iff_toInt_lt, Int32.toInt_zero] at h ⊢
  omega

/-! ## The invariant -/

/-- After `n` calls of `countDown()` have done their work on a latch made with `count`. -/
structure Inv (tids : Tids ι) (count : Int32) (n : Nat) (s : CountDownLatch ι) : Prop where
  mutex : s.mutex.Inv tids
  owner : ∀ i, s.pc i ≠ .idle → s.mutex.pc i = .out → s.mutex.owner = some i
  waits : ∀ i, s.mutex.pc i = .block ∨ s.mutex.pc i = .blocked → 0 < s.count
  counted : count.toInt ≤ n ∨ s.count.toInt = count.toInt - n
  left : ∀ i, s.pc i = .leaving .wait → count.toInt ≤ n

omit [DecidableEq ι] in
theorem inv_new : Inv tids count 0 (new count : CountDownLatch ι) where
  mutex := MutexLock.inv_new
  owner _ h := absurd rfl h
  waits _ h := by rcases h with h | h <;> cases h
  counted := .inr (Int.sub_zero _).symm
  left _ h := by cases h

theorem goto_pc_self (s : CountDownLatch ι) (i : ι) (p : Pc) : (s.goto i p).pc i = p :=
  Function.update_self ..

theorem goto_pc_of_ne (h : j ≠ i) (p : Pc) : (s.goto i p).pc j = s.pc j :=
  Function.update_of_ne h ..

omit [DecidableEq ι] in
/-- `notifyAll()` does not touch the mutex. -/
theorem inv_notifyAll (h : m.Inv tids) : (notifyAll m).Inv tids := by
  have howns : ∀ p, (condition.awaken p).owns = p.owns := by
    intro p
    cases p <;> rfl
  have hshown : ∀ p, (condition.awaken p).shown = p.shown := by
    intro p
    cases p <;> rfl
  refine ⟨fun i hi => h.owns i ?_, h.free, fun i hi => ?_⟩
  · rwa [← howns]
  · show m.holder = if (condition.awaken (m.pc i)).shown then tids.tid i else 0
    rw [hshown]
    exact h.holder i hi

omit [DecidableEq ι] in
/-- The threads that a broadcast leaves alone. -/
theorem notifyAll_pc {p : MutexLock.Pc} (h : (notifyAll m).pc j = p) (hp : p ≠ .reacquire) :
    m.pc j = p ∧ p ≠ .blocked := by
  replace h : condition.awaken (m.pc j) = p := h
  have hno := condition.not_waits_awaken (m.pc j)
  rw [h] at hno
  constructor
  · cases hw : condition.waits (m.pc j) with
    | true =>
      unfold CondVar.awaken at h
      rw [if_pos hw] at h
      exact absurd h.symm hp
    | false => rwa [CondVar.awaken_of_not_waits hw] at h
  · rintro rfl
    cases hno

/-- A step of the mutex, and a step of its thread in the latch. -/
theorem Inv.mutexStep (h : Inv tids count n s) {a : MutexLock.Act ι}
    (hm : s.mutex.step tids a = some m) (p : Pc)
    (hrelease : a = .release a.thread → p = .idle) (hwait : a = .wait a.thread → 0 < s.count)
    (hleft : p = .leaving .wait → s.pc a.thread = .leaving .wait) :
    Inv tids count n { s.goto a.thread p with mutex := m } := by
  have hmove := MutexLock.step_move hm
  refine ⟨hmove.inv h.mutex, fun j hj hout => ?_, fun j hj => ?_, h.counted, fun j hj => ?_⟩
  · by_cases hja : j = a.thread
    · subst hja
      rcases MutexLock.step_out hm h.mutex hout with howner | hr
      · exact howner
      · exact absurd ((goto_pc_self s _ p).trans (hrelease hr)) hj
    · replace hj : (s.goto a.thread p).pc j ≠ .idle := hj
      rw [goto_pc_of_ne hja] at hj
      replace hout : m.pc j = .out := hout
      rw [hmove.pc_of_ne hja] at hout
      exact hmove.owner_of_ne h.mutex hja (h.owner j hj hout)
  · rcases MutexLock.step_waits hm hj with hj | hj
    · exact h.waits j hj
    · subst hj
      exact hwait rfl
  · by_cases hja : j = a.thread
    · subst hja
      exact h.left _ (hleft ((goto_pc_self s _ p).symm.trans hj))
    · exact h.left j ((goto_pc_of_ne hja p).symm.trans hj)

theorem Inv.mutexStay (h : Inv tids count n s) {a : MutexLock.Act ι}
    (hm : s.mutex.step tids a = some m) (hrelease : a ≠ .release a.thread)
    (hwait : a = .wait a.thread → 0 < s.count) : Inv tids count n { s with mutex := m } := by
  have h' := h.mutexStep hm (s.pc a.thread) (fun e => absurd e hrelease) hwait id
  unfold goto at h'
  rwa [Function.update_eq_self] at h'

omit [DecidableEq ι] in
/-- Where the threads are after the broadcast, or without it. -/
theorem broadcast_cases {k : Int32} (h : s.mutex.Inv tids)
    (hm : k = 0 ∧ m = notifyAll s.mutex ∨ k ≠ 0 ∧ m = s.mutex) :
    m.Inv tids ∧ m.owner = s.mutex.owner ∧ ∀ j p, m.pc j = p → p ≠ .reacquire →
      s.mutex.pc j = p ∧ (p = .blocked → k ≠ 0) := by
  rcases hm with ⟨-, rfl⟩ | ⟨hne, rfl⟩
  · refine ⟨inv_notifyAll h, rfl, fun j p hp hno => ?_⟩
    obtain ⟨hp, hblocked⟩ := notifyAll_pc hp hno
    exact ⟨hp, fun e => absurd e hblocked⟩
  · exact ⟨h, rfl, fun j p hp _ => ⟨hp, fun _ => hne⟩⟩

omit [DecidableEq ι] in
/-- A latch that lets threads pass has been counted down. -/
theorem Inv.le_of_count (h : Inv tids count n s) (hcount : s.count ≤ 0) : count.toInt ≤ n := by
  have hle := Int32.le_iff_toInt_le.mp hcount
  rw [Int32.toInt_zero] at hle
  rcases h.counted with hn | hn <;> omega

/-- The owner of the mutex goes on in the latch. -/
theorem Inv.owner_goto (h : Inv tids count n s) (howner : s.mutex.owner = some i) (p : Pc)
    (hj : (s.goto i p).pc j ≠ .idle) (hout : s.mutex.pc j = .out) : s.mutex.owner = some j := by
  by_cases hji : j = i
  · rw [hji]
    exact howner
  · rw [goto_pc_of_ne hji] at hj
    exact h.owner j hj hout

/-- The work of `countDown()`: the thread has the mutex, so nobody is on the way into the wait, and
the waiters are woken when the count becomes zero. -/
theorem Inv.countDown (h : Inv tids count n s) {overflow k : Int32}
    (hpc : s.pc i = .within .countDown) (hout : s.mutex.pc i = .out)
    (hk : k = decrement s.count overflow)
    (hm : k = 0 ∧ m = notifyAll s.mutex ∨ k ≠ 0 ∧ m = s.mutex) :
    Inv tids count (n + 1) { s.goto i (.leaving .countDown) with count := k, mutex := m } := by
  have howner : s.mutex.owner = some i := h.owner i (by rw [hpc]; nofun) hout
  have hblock : ∀ j, s.mutex.pc j ≠ .block := by
    intro j hj
    have howner' := h.mutex.owns j (by rw [hj]; rfl)
    rw [howner, Option.some_inj] at howner'
    rw [← howner', hout] at hj
    cases hj
  obtain ⟨hinv, hsame, hplaces⟩ := broadcast_cases h.mutex hm
  refine ⟨hinv, fun j hj hout' => ?_, fun j hj => ?_, ?_, fun j hj => ?_⟩
  · exact hsame.trans (h.owner_goto howner _ hj (hplaces j _ hout' nofun).1)
  · rcases hj with hj | hj
    · exact absurd (hplaces j _ hj nofun).1 (hblock j)
    · obtain ⟨hblocked, hne⟩ := hplaces j _ hj nofun
      subst hk
      exact decrement_pos (h.waits j (.inr hblocked)) (hne rfl)
  · by_cases hpos : 0 < s.count
    · rcases h.counted with hn | hn
      · exact .inl (by push_cast; omega)
      · refine .inr ?_
        show k.toInt = _
        rw [hk, decrement_toInt hpos, hn]
        push_cast
        omega
    · have hn := h.le_of_count (Int32.not_lt.mp hpos)
      exact .inl (by push_cast; omega)
  · by_cases hji : j = i
    · rw [hji] at hj
      cases (goto_pc_self s i _).symm.trans hj
    · have hn := h.left j ((goto_pc_of_ne hji _).symm.trans hj)
      push_cast
      omega

/-- A test that lets the thread pass. -/
theorem Inv.pass (h : Inv tids count n s) (hpc : s.pc i = .within .wait)
    (hout : s.mutex.pc i = .out) (hcount : s.count ≤ 0) :
    Inv tids count n (s.goto i (.leaving .wait)) := by
  have howner := h.owner i (by rw [hpc]; nofun) hout
  exact ⟨h.mutex, fun j hj hout' => h.owner_goto howner _ hj hout', h.waits, h.counted,
    fun j _ => h.le_of_count hcount⟩

/-- **One step** keeps the invariant. -/
theorem Inv.step (h : Inv tids count n s) (hs : Move tids s a s') :
    Inv tids count (n + if a.countsDown then 1 else 0) s' := by
  cases hs with
  | call hpc hm => exact h.mutexStep hm _ nofun nofun nofun
  | @mutex b m hb hm =>
    refine h.mutexStay hm (fun e => ?_) (fun e => ?_) <;> rw [e] at hb <;> cases hb
  | again hcount hm => exact h.mutexStay hm nofun fun _ => hcount
  | pass hpc hout hcount => exact h.pass hpc hout hcount
  | countDown hpc hout hcount hmutex => exact h.countDown hpc hout hcount hmutex
  | unlock hm => exact h.mutexStay hm nofun nofun
  | ret hpc hm => exact h.mutexStep hm _ (fun _ => rfl) nofun nofun

/-- Every run keeps the invariant. -/
theorem inv_exec {acts : List (Act ι)}
    (h : Lts.exec (step tids) (new count) acts = some s) :
    Inv tids count (acts.countP Act.countsDown) s := by
  refine Lts.exec_inv (P := fun acts s => Inv tids count (acts.countP Act.countsDown) s) ?_ ?_ h
  · exact inv_new
  · intro acts s a s' _ ih hs
    rw [List.countP_append, List.countP_singleton]
    exact ih.step (step_move hs)

/-- **No wait is too short, and none is forgotten.** In every run of any threads, a `wait()` returns
behind at least as many `countDown()` calls as the latch was made with; and where `count_` is not
positive, no thread in `wait()` is without a wake-up. -/
theorem wait_held_and_released (tids : Tids ι) (count : Int32) (acts : List (Act ι))
    (s : CountDownLatch ι) (h : Lts.exec (step tids) (new count) acts = some s) :
    (∀ before i after, acts = before ++ .ret i .wait :: after →
      count.toInt ≤ before.countP Act.countsDown) ∧
    (s.count ≤ 0 → ∀ i, s.mutex.pc i ≠ .blocked) := by
  refine ⟨fun before i after hacts => ?_, fun hcount i hi => ?_⟩
  · rw [hacts] at h
    obtain ⟨u, hu, h⟩ := Lts.exec_append_some h
    obtain ⟨v, hv, -⟩ := Lts.exec_cons h
    cases step_move hv with
    | ret hpc hm => exact (inv_exec hu).left i hpc
  · exact Int32.not_lt.mpr hcount ((inv_exec h).waits i (.inr hi))

def twoThreads : Tids Bool := ⟨fun i => if i then 102 else 101, by decide, by decide⟩

/-- A waiter that is woken spuriously and waits again, a `countDown()`, and the return of the
waiter; a second `countDown()` finds the count at zero. -/
def oneWaiter : List (Act Bool) :=
  [.call false .wait, .mutex (.acquire false), .mutex (.assign false), .test false,
    .call true .countDown, .mutex (.block false), .mutex (.wake false),
    .mutex (.reacquire false), .mutex (.restore false), .test false, .mutex (.block false),
    .mutex (.acquire true), .mutex (.assign true), .countDown true 0, .unlock true,
    .ret true .countDown, .mutex (.reacquire false), .mutex (.restore false), .test false,
    .unlock false, .ret false .wait, .call true .countDown, .mutex (.acquire true),
    .mutex (.assign true), .countDown true 0]

theorem wait_held_and_released_oneWaiter :
    ∃ s, Lts.exec (step twoThreads) (new 1) oneWaiter = some s ∧ s.count = -1 ∧
      1 ≤ (oneWaiter.take 20).countP Act.countsDown ∧ ∀ i, s.mutex.pc i ≠ .blocked := by
  obtain ⟨s, he, hcount⟩ : ∃ s, Lts.exec (step twoThreads) (new 1) oneWaiter = some s ∧
      s.count = -1 := ⟨_, rfl, rfl⟩
  obtain ⟨hheld, hreleased⟩ := wait_held_and_released twoThreads 1 oneWaiter s he
  have hone := hheld (oneWaiter.take 20) false (oneWaiter.drop 21) rfl
  exact ⟨s, he, hcount, Int.ofNat_le.mp hone, hreleased (by rw [hcount]; decide)⟩

end CountDownLatch

end MultiThreadLog
