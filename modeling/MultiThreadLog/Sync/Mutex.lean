import Mathlib.Logic.Function.Basic
import MultiThreadLog.Lib.Runs

/-!
# `MutexLock` and the waits of `Condition`

`pthread_mutex_t` is the `owner`, the thread that has the mutex; `holder_` is a variable of its
own, which `lock()` sets after it has the mutex and `unlock()` clears before it gives the mutex back
(`Mutex.h`). `Condition::wait` and `waitForSeconds` clear it, wait, and set it again
(`UnassignGuard`). Every assignment and every call of the pthread library is a step: `lock`,
`unlock` and `wait` are the calls of these functions, the other steps lie inside them. A wait ends
by a signal, a timeout or spuriously. `unlock()` and the waits are called by the owner only, as the
pthread library asks for; `lock()` may be called by anybody.

`Move` says what a step can do; from it follow the invariant (`Inv`) and that `holder_` tells each
thread outside these functions whether it owns the mutex (`isLockedByThisThread_iff`).
-/

namespace MultiThreadLog

/-- `CurrentThread::tid()`: no two threads have the same, and none has 0. -/
structure Tids (ι : Type) where
  tid : ι → Int
  inj : ∀ i j, tid i = tid j → i = j
  ne_zero : ∀ i, tid i ≠ 0

/-- Where a thread is: outside the functions, or before the step of them that is named. -/
inductive MutexLock.Pc where
  | out
  | acquire
  | assign
  | release
  | block
  | blocked
  | reacquire
  | restore
  deriving DecidableEq

structure MutexLock (ι : Type) where
  owner : Option ι
  holder : Int
  pc : ι → MutexLock.Pc

namespace MutexLock

variable {ι : Type} (tids : Tids ι)

def new : MutexLock ι := ⟨none, 0, fun _ => .out⟩

def isLockedByThisThread (s : MutexLock ι) (i : ι) : Bool := s.holder = tids.tid i

def assertLocked (s : MutexLock ι) (i : ι) : Prop := s.isLockedByThisThread tids i = true

def assignHolder (s : MutexLock ι) (i : ι) : MutexLock ι := { s with holder := tids.tid i }

def unassignHolder (s : MutexLock ι) : MutexLock ι := { s with holder := 0 }

variable [DecidableEq ι]

def goto (s : MutexLock ι) (i : ι) (p : Pc) : MutexLock ι :=
  { s with pc := Function.update s.pc i p }

inductive Act (ι : Type) where
  | lock (i : ι)
  | acquire (i : ι)
  | assign (i : ι)
  /-- `unlock()` is called, and `unassignHolder()`. -/
  | unlock (i : ι)
  | release (i : ι)
  /-- `wait()` or `waitForSeconds()` is called, and `UnassignGuard` constructed. -/
  | wait (i : ι)
  | block (i : ι)
  | wake (i : ι)
  | reacquire (i : ι)
  /-- `UnassignGuard` is destroyed. -/
  | restore (i : ι)

def Act.thread : Act ι → ι
  | .lock i | .acquire i | .assign i | .unlock i | .release i | .wait i | .block i | .wake i
  | .reacquire i | .restore i => i

/-- Where the thread of a step is before it, and afterwards. -/
def Act.source : Act ι → Pc
  | .lock _ | .unlock _ | .wait _ => .out
  | .acquire _ => .acquire
  | .assign _ => .assign
  | .release _ => .release
  | .block _ => .block
  | .wake _ => .blocked
  | .reacquire _ => .reacquire
  | .restore _ => .restore

def Act.target : Act ι → Pc
  | .assign _ | .release _ | .restore _ => .out
  | .lock _ => .acquire
  | .acquire _ => .assign
  | .unlock _ => .release
  | .wait _ => .block
  | .block _ => .blocked
  | .wake _ => .reacquire
  | .reacquire _ => .restore

def step (s : MutexLock ι) : Act ι → Option (MutexLock ι)
  | .lock i => if s.pc i = .out then some (s.goto i .acquire) else none
  | .acquire i =>
    if s.pc i = .acquire ∧ s.owner = none then some { s.goto i .assign with owner := some i }
    else none
  | .assign i => if s.pc i = .assign then some ((s.goto i .out).assignHolder tids i) else none
  | .unlock i =>
    if s.pc i = .out ∧ s.owner = some i then some (s.goto i .release).unassignHolder else none
  | .release i => if s.pc i = .release then some { s.goto i .out with owner := none } else none
  | .wait i =>
    if s.pc i = .out ∧ s.owner = some i then some (s.goto i .block).unassignHolder else none
  | .block i => if s.pc i = .block then some { s.goto i .blocked with owner := none } else none
  | .wake i => if s.pc i = .blocked then some (s.goto i .reacquire) else none
  | .reacquire i =>
    if s.pc i = .reacquire ∧ s.owner = none then some { s.goto i .restore with owner := some i }
    else none
  | .restore i => if s.pc i = .restore then some ((s.goto i .out).assignHolder tids i) else none

/-! ## What a step can do -/

/-- Inside a function and with the mutex. -/
def Pc.owns : Pc → Bool
  | .assign | .release | .block | .restore => true
  | _ => false

/-- With the mutex, `holder_` is set: outside the functions, or at the beginning of another
`lock()`. -/
def Pc.shown : Pc → Bool
  | .out | .acquire => true
  | _ => false

/-- A step of thread `i`, by its effect on `owner` and `holder_`. -/
inductive Move (s : MutexLock ι) (i : ι) : MutexLock ι → Prop where
  | go (p : Pc) (hp : p.owns = false) (h : p.shown = (s.pc i).shown) : Move s i (s.goto i p)
  | take (p : Pc) (hp : p.shown = false) (h : s.owner = none) :
      Move s i { s.goto i p with owner := some i }
  | set (h : (s.pc i).owns = true) : Move s i ((s.goto i .out).assignHolder tids i)
  | clear (p : Pc) (hp : p.shown = false) (h : s.owner = some i) :
      Move s i (s.goto i p).unassignHolder
  | drop (p : Pc) (hp : p.owns = false) (h : (s.pc i).owns = true) :
      Move s i { s.goto i p with owner := none }

variable {tids} {s s' : MutexLock ι} {i j : ι} {a : Act ι}

theorem goto_pc_self (s : MutexLock ι) (i : ι) (p : Pc) : (s.goto i p).pc i = p :=
  Function.update_self ..

theorem goto_pc_of_ne (h : j ≠ i) (p : Pc) : (s.goto i p).pc j = s.pc j :=
  Function.update_of_ne h ..

theorem step_move (h : s.step tids a = some s') : Move tids s a.thread s' := by
  cases a <;> simp only [step, Option.ite_none_right_eq_some, Option.some_inj] at h <;>
    obtain ⟨hpc, rfl⟩ := h
  case lock i => exact .go .acquire rfl (by simp only [Act.thread, hpc]; rfl)
  case acquire i => exact .take .assign rfl hpc.2
  case assign i => exact .set (by simp only [Act.thread, hpc]; rfl)
  case unlock i => exact .clear .release rfl hpc.2
  case release i => exact .drop .out rfl (by simp only [Act.thread, hpc]; rfl)
  case wait i => exact .clear .block rfl hpc.2
  case block i => exact .drop .blocked rfl (by simp only [Act.thread, hpc]; rfl)
  case wake i => exact .go .reacquire rfl (by simp only [Act.thread, hpc]; rfl)
  case reacquire i => exact .take .restore rfl hpc.2
  case restore i => exact .set (by simp only [Act.thread, hpc]; rfl)

theorem step_pc (h : s.step tids a = some s') :
    s.pc a.thread = a.source ∧ s'.pc a.thread = a.target := by
  cases a <;> simp only [step, Option.ite_none_right_eq_some, Option.some_inj] at h <;>
    obtain ⟨hpc, rfl⟩ := h <;>
    refine ⟨?_, goto_pc_self ..⟩
  case acquire | unlock | wait | reacquire => exact hpc.1
  all_goals exact hpc

/-! ## The invariant -/

/-- A thread with the mutex inside a function owns it, and `holder_` shows the owner unless it is
inside a function. -/
structure Inv (tids : Tids ι) (s : MutexLock ι) : Prop where
  owns : ∀ i, (s.pc i).owns = true → s.owner = some i
  free : s.owner = none → s.holder = 0
  holder : ∀ i, s.owner = some i → s.holder = if (s.pc i).shown then tids.tid i else 0

omit [DecidableEq ι] in
theorem inv_new : Inv tids (new : MutexLock ι) where
  owns _ h := by cases h
  free _ := rfl
  holder _ h := by cases h

theorem Pc.shown_of_owns {p : Pc} (h : p.owns = true) : p.shown = false := by
  cases p <;> first | rfl | cases h

/-- The threads inside a function with the mutex after one thread moved. -/
theorem Inv.owns_goto (hinv : Inv tids s) {p : Pc} (h : ((s.goto i p).pc j).owns = true) :
    j = i ∧ p.owns = true ∨ j ≠ i ∧ s.owner = some j := by
  by_cases hji : j = i
  · rw [hji, goto_pc_self] at h
    exact .inl ⟨hji, h⟩
  · rw [goto_pc_of_ne hji] at h
    exact .inr ⟨hji, hinv.owns j h⟩

theorem Inv.owner_goto (hinv : Inv tids s) (howner : s.owner = some i) {p : Pc}
    (h : ((s.goto i p).pc j).owns = true) : s.owner = some j := by
  rcases hinv.owns_goto h with ⟨rfl, -⟩ | ⟨-, hj⟩
  · exact howner
  · exact hj

/-- A thread moves to where it does not own the mutex. -/
theorem Inv.other_goto (hinv : Inv tids s) {p : Pc} (hp : p.owns = false)
    (h : ((s.goto i p).pc j).owns = true) : j ≠ i ∧ s.owner = some j := by
  rcases hinv.owns_goto h with ⟨-, hown⟩ | hj
  · rw [hp] at hown
    cases hown
  · exact hj

theorem Move.pc_of_ne (h : Move tids s i s') (hj : j ≠ i) : s'.pc j = s.pc j := by
  cases h <;> exact goto_pc_of_ne hj _

/-- No thread takes the mutex from its owner. -/
theorem Move.owner_of_ne (h : Move tids s i s') (hinv : Inv tids s) (hj : j ≠ i)
    (howner : s.owner = some j) : s'.owner = some j := by
  cases h with
  | go p hp hshown => exact howner
  | take p hp hfree =>
    rw [hfree] at howner
    cases howner
  | set howns => exact howner
  | clear p hp hi => exact howner
  | drop p hp howns =>
    rw [hinv.owns i howns, Option.some_inj] at howner
    exact absurd howner.symm hj

/-- **One step** keeps the invariant. -/
theorem Move.inv (h : Move tids s i s') (hinv : Inv tids s) : Inv tids s' := by
  cases h with
  | go p hp hshown =>
    refine ⟨fun j hj => ?_, hinv.free, fun j hj => ?_⟩
    · exact (hinv.other_goto hp hj).2
    · have hholder := hinv.holder j hj
      by_cases hji : j = i
      · rw [hji] at hholder ⊢
        rwa [goto_pc_self, hshown]
      · rwa [goto_pc_of_ne hji]
  | take p hp hfree =>
    refine ⟨fun j hj => ?_, nofun, fun j hj => ?_⟩
    · rcases hinv.owns_goto hj with ⟨rfl, -⟩ | ⟨-, howner⟩
      · rfl
      · -- nobody owned the mutex
        rw [hfree] at howner
        cases howner
    · obtain rfl : i = j := Option.some_inj.mp hj
      show s.holder = if ((s.goto i p).pc i).shown then _ else _
      rw [goto_pc_self, hp]
      exact hinv.free hfree
  | set howns =>
    have howner := hinv.owns i howns
    refine ⟨fun j hj => ?_, fun hfree => ?_, fun j hj => ?_⟩
    · exact hinv.owner_goto howner hj
    · exact absurd (hfree.symm.trans howner) nofun
    · obtain rfl : i = j := Option.some_inj.mp (howner.symm.trans hj)
      show tids.tid i = if ((s.goto i .out).pc i).shown then _ else _
      rw [goto_pc_self]
      rfl
  | clear p hp howner =>
    refine ⟨fun j hj => ?_, fun _ => rfl, fun j hj => ?_⟩
    · exact hinv.owner_goto howner hj
    · obtain rfl : i = j := Option.some_inj.mp (howner.symm.trans hj)
      show 0 = if ((s.goto i p).pc i).shown then _ else _
      rw [goto_pc_self, hp]
      rfl
  | drop p hp howns =>
    have howner := hinv.owns i howns
    refine ⟨fun j hj => ?_, fun _ => ?_, nofun⟩
    · obtain ⟨hji, h⟩ := hinv.other_goto hp hj
      rw [howner, Option.some_inj] at h
      exact absurd h.symm hji
    · show s.holder = 0
      rw [hinv.holder i howner, Pc.shown_of_owns howns]
      rfl

theorem inv_exec {acts : List (Act ι)} (h : Lts.exec (step tids) s acts = some s')
    (hinv : Inv tids s) : Inv tids s' :=
  Lts.exec_keeps (fun _ _ _ hi hs => (step_move hs).inv hi) hinv h

/-! ## What `holder_` tells -/

omit [DecidableEq ι] in
/-- Outside the functions `holder_` tells whether the thread owns the mutex. -/
theorem Inv.isLocked_iff (h : Inv tids s) (hi : s.pc i = .out) :
    s.isLockedByThisThread tids i = true ↔ s.owner = some i := by
  rw [isLockedByThisThread, decide_eq_true_eq]
  constructor
  · intro htid
    cases howner : s.owner with
    | none => exact absurd (htid.symm.trans (h.free howner)) (tids.ne_zero i)
    | some j =>
      have hholder := h.holder j howner
      split at hholder
      · rw [tids.inj j i (hholder.symm.trans htid)]
      · exact absurd (htid.symm.trans hholder) (tids.ne_zero i)
  · intro howner
    rw [h.holder i howner, hi]
    rfl

/-- After `lock()` or a wait has returned, the thread owns the mutex until it does something
else. -/
theorem owner_exec {acts : List (Act ι)} (h : Lts.exec (step tids) s acts = some s')
    (hinv : Inv tids s) (hi : s.pc i = .out) (howner : s.owner = some i)
    (hothers : ∀ a ∈ acts, a.thread ≠ i) : s'.pc i = .out ∧ s'.owner = some i := by
  induction acts generalizing s with
  | nil =>
    cases h
    exact ⟨hi, howner⟩
  | cons a acts ih =>
    obtain ⟨u, hu, h⟩ := Lts.exec_cons h
    have hmove := step_move hu
    have hne : i ≠ a.thread := Ne.symm (hothers a List.mem_cons_self)
    exact ih h (hmove.inv hinv) ((hmove.pc_of_ne hne).trans hi) (hmove.owner_of_ne hinv hne howner)
      fun b hb => hothers b (List.mem_cons_of_mem _ hb)

/-- The return of `lock()` or of a wait. -/
theorem step_set (h : s.step tids a = some s') (hinv : Inv tids s)
    (ha : a = .assign i ∨ a = .restore i) : s'.pc i = .out ∧ s'.owner = some i := by
  rcases ha with rfl | rfl <;>
    simp only [step, Option.ite_none_right_eq_some, Option.some_inj] at h <;>
    obtain ⟨hpc, rfl⟩ := h <;>
    exact ⟨goto_pc_self .., hinv.owns i (by rw [hpc]; rfl)⟩

/-- A thread that is outside the functions after a step of its own has the mutex, or has just given
it back. -/
theorem step_out (h : s.step tids a = some s') (hinv : Inv tids s)
    (hout : s'.pc a.thread = .out) : s'.owner = some a.thread ∨ a = .release a.thread := by
  rw [(step_pc h).2] at hout
  cases a with
  | assign i => exact .inl (step_set h hinv (.inl rfl)).2
  | restore i => exact .inl (step_set h hinv (.inr rfl)).2
  | release i => exact .inr rfl
  | _ => cases hout

/-- A thread comes to wait by a call of `wait` only. -/
theorem step_waits (h : s.step tids a = some s') (hw : s'.pc j = .block ∨ s'.pc j = .blocked) :
    (s.pc j = .block ∨ s.pc j = .blocked) ∨ a = .wait j := by
  by_cases hj : j = a.thread
  · obtain ⟨hsource, htarget⟩ := step_pc h
    rw [hj, htarget] at hw
    subst hj
    cases a with
    | wait i => exact .inr rfl
    | block i => exact .inl (.inl hsource)
    | _ => rcases hw with hw | hw <;> cases hw
  · rw [(step_move h).pc_of_ne hj] at hw
    exact .inl hw

/-- **`isLockedByThisThread()`** is true of the thread that owns the mutex, whenever a thread calls
it outside `lock`, `unlock` and the waits. The calls of `isFull()` in `ThreadPool::run` come behind
the guard's `lock()` or behind a wait, with nothing else in between: there `assertLocked()` does not
fail. -/
theorem isLockedByThisThread_iff (tids : Tids ι) (acts : List (Act ι)) (s : MutexLock ι)
    (h : Lts.exec (step tids) new acts = some s) :
    (∀ i, s.pc i = .out → (s.isLockedByThisThread tids i = true ↔ s.owner = some i)) ∧
    ∀ i before a after, acts = before ++ a :: after → (a = .assign i ∨ a = .restore i) →
      (∀ b ∈ after, b.thread ≠ i) → s.pc i = .out ∧ s.assertLocked tids i := by
  have hinv := inv_exec h inv_new
  refine ⟨fun i hi => hinv.isLocked_iff hi, fun i before a after hacts ha hothers => ?_⟩
  rw [hacts] at h
  obtain ⟨u, hu, h⟩ := Lts.exec_append_some h
  obtain ⟨v, hv, h⟩ := Lts.exec_cons h
  have hinvu := inv_exec hu inv_new
  obtain ⟨hpc, howner⟩ := step_set hv hinvu ha
  obtain ⟨hout, howner⟩ := owner_exec h ((step_move hv).inv hinvu) hpc howner hothers
  exact ⟨hout, (hinv.isLocked_iff hout).mpr howner⟩

/-- A waiter that is woken while another thread has the mutex, and calls `isFull()` behind the
wait. -/
theorem isLockedByThisThread_iff_waiter :
    let tids : Tids Bool := ⟨fun i => if i then 102 else 101, by decide, by decide⟩
    ∃ s, Lts.exec (step tids) new [.lock false, .acquire false, .assign false, .wait false,
        .lock true, .block false, .acquire true, .assign true, .wake false, .unlock true,
        .release true, .reacquire false, .restore false, .lock true] = some s ∧
      s.assertLocked tids false := by
  intro tids
  exact ⟨_, rfl, ((isLockedByThisThread_iff tids [.lock false, .acquire false, .assign false,
    .wait false, .lock true, .block false, .acquire true, .assign true, .wake false, .unlock true,
    .release true, .reacquire false, .restore false, .lock true] _ rfl).2 false
    [.lock false, .acquire false, .assign false, .wait false, .lock true, .block false,
      .acquire true, .assign true, .wake false, .unlock true, .release true, .reacquire false]
    (.restore false) [.lock true] rfl (.inr rfl) (by simp [Act.thread])).2⟩

end MutexLock

end MultiThreadLog
