import MultiThreadLog.Lib.Countdown
import MultiThreadLog.Sync.CountDownLatch

/-!
# Leaving a latch

`wait_held_and_released` says that nobody is forgotten; this file says how soon a thread is out.
Inside the latch a thread has a place in the function and one in the mutex, and the two fit
(`Placed`): from the place one reads whether the thread has the mutex, and how many steps of its
own are `left` to the return. In `wait()` these are the steps to the return if the test lets the
thread pass, so they count from the moment the latch is down.

`count_` stays down unless `--count_` overflows, which takes 2^31 calls more than the latch was made
with (`Counted`). Neither the other threads nor a broadcast moves a thread back, so it is out after
five steps of its own; and when it cannot step itself, it waits for the mutex, and the owner of the
mutex can (`leaves_within`).
-/

namespace MultiThreadLog

namespace MutexLock

variable {ι : Type} [DecidableEq ι] {tids : Tids ι} {s s' : MutexLock ι} {a : Act ι}

/-- Who has the mutex after a step. -/
def Act.owner (a : Act ι) (before : Option ι) : Option ι :=
  match a with
  | .acquire i | .reacquire i => some i
  | .release _ | .block _ => none
  | _ => before

theorem step_owner (h : s.step tids a = some s') : s'.owner = a.owner s.owner := by
  cases a <;> simp only [step, Option.ite_none_right_eq_some, Option.some_inj] at h <;>
    obtain ⟨-, rfl⟩ := h <;> rfl

end MutexLock

namespace CountDownLatch

variable {ι : Type}

/-- The place in the mutex of a thread at this place in the latch. -/
def Pc.fits : Pc → MutexLock.Pc → Bool
  | .idle, .out => true
  | .within .wait, .release => false
  | .within .wait, _ => true
  | .within .countDown, .acquire | .within .countDown, .assign | .within .countDown, .out => true
  | .leaving _, .out | .leaving _, .release => true
  | _, _ => false

/-- A thread at these places has the mutex. -/
def Pc.holds : Pc → MutexLock.Pc → Bool
  | .idle, _ => false
  | _, .out => true
  | _, p => p.owns

/-- The steps from these places to the return. -/
def Pc.left : Pc → MutexLock.Pc → Nat
  | .idle, _ => 0
  | .within _, .acquire | .within _, .reacquire => 5
  | .within _, .assign | .within _, .restore => 4
  | .within _, .out => 3
  | .within _, _ => 0
  | .leaving _, .out => 2
  | .leaving _, _ => 1

def left (s : CountDownLatch ι) (i : ι) : Nat := (s.pc i).left (s.mutex.pc i)

def Act.thread : Act ι → ι
  | .call i _ | .test i | .countDown i _ | .unlock i | .ret i _ => i
  | .mutex a => a.thread

def Act.isCall : Act ι → Bool
  | .call _ _ => true
  | _ => false

/-- `pthread_cond_wait` returns though nobody has notified. -/
def Act.spurious : Act ι → Bool
  | .mutex (.wake _) => true
  | _ => false

theorem Pc.left_le (p : Pc) (q : MutexLock.Pc) : p.left q ≤ 5 := by
  cases p <;> cases q <;> simp [Pc.left]

variable [DecidableEq ι] {tids : Tids ι} {s s' : CountDownLatch ι} {m : MutexLock ι} {a : Act ι}
  {i j : ι} {n : Nat} {count : Int32}

/-! ## The places fit -/

/-- Every thread is at places that fit, and the owner of the mutex at places that say so. -/
structure Placed (s : CountDownLatch ι) : Prop where
  fits : ∀ i, (s.pc i).fits (s.mutex.pc i) = true
  owner : ∀ i, s.mutex.owner = some i → (s.pc i).holds (s.mutex.pc i) = true

omit [DecidableEq ι] in
theorem placed_new : Placed (new count : CountDownLatch ι) := ⟨fun _ => rfl, nofun⟩

/-- A thread moves in the mutex and to `p` in the latch. -/
theorem Placed.mutexStep (h : Placed s) {b : MutexLock.Act ι} (hm : s.mutex.step tids b = some m)
    {p : Pc} (hfits : p.fits b.target = true)
    (hholds : b.owner s.mutex.owner = some b.thread → p.holds b.target = true) :
    Placed { s.goto b.thread p with mutex := m } := by
  have hmove := MutexLock.step_move hm
  obtain ⟨-, htarget⟩ := MutexLock.step_pc hm
  refine ⟨fun j => ?_, fun j hj => ?_⟩ <;> by_cases hji : j = b.thread
  · subst hji
    show ((s.goto b.thread p).pc b.thread).fits (m.pc b.thread) = true
    rw [goto_pc_self, htarget]
    exact hfits
  · show ((s.goto b.thread p).pc j).fits (m.pc j) = true
    rw [goto_pc_of_ne hji, hmove.pc_of_ne hji]
    exact h.fits j
  · subst hji
    show ((s.goto b.thread p).pc b.thread).holds (m.pc b.thread) = true
    rw [goto_pc_self, htarget]
    refine hholds ?_
    rw [← MutexLock.step_owner hm]
    exact hj
  · show ((s.goto b.thread p).pc j).holds (m.pc j) = true
    rw [goto_pc_of_ne hji, hmove.pc_of_ne hji]
    refine h.owner j ?_
    replace hj : m.owner = some j := hj
    rw [MutexLock.step_owner hm] at hj
    cases b with
    | acquire i | reacquire i => exact absurd (Option.some_inj.mp hj).symm hji
    | release i | block i => cases hj
    | lock i | assign i | unlock i | wait i | wake i | restore i => exact hj

/-- The thread stays where it is in the latch. -/
theorem Placed.mutexStay (h : Placed s) {b : MutexLock.Act ι} (hm : s.mutex.step tids b = some m)
    (hfits : (s.pc b.thread).fits b.target = true)
    (hholds : b.owner s.mutex.owner = some b.thread → (s.pc b.thread).holds b.target = true) :
    Placed { s with mutex := m } := by
  have h' := h.mutexStep hm hfits hholds
  unfold goto at h'
  rwa [Function.update_eq_self] at h'

omit [DecidableEq ι] in
/-- A broadcast changes places only from one wait to the next. -/
theorem Placed.notifyAll (h : Placed s) : Placed { s with mutex := notifyAll s.mutex } := by
  refine ⟨fun i => ?_, fun i hi => ?_⟩
  · show (s.pc i).fits (condition.awaken (s.mutex.pc i)) = true
    have hfits := h.fits i
    cases hp : s.mutex.pc i <;> rw [hp] at hfits <;> try exact hfits
    cases hpc : s.pc i with
    | idle => rw [hpc] at hfits; cases hfits
    | within f => cases f <;> rw [hpc] at hfits <;> first | rfl | cases hfits
    | leaving f => rw [hpc] at hfits; cases hfits
  · show (s.pc i).holds (condition.awaken (s.mutex.pc i)) = true
    have hholds := h.owner i hi
    cases hp : s.mutex.pc i <;> rw [hp] at hholds <;> try exact hholds
    cases hpc : s.pc i <;> rw [hpc] at hholds <;> cases hholds

/-- The owner of the mutex goes on in the latch. -/
theorem Placed.goto (h : Placed s) (hout : s.mutex.pc i = .out) {p : Pc} (hp : p ≠ .idle)
    (hfits : p.fits .out = true) : Placed (s.goto i p) := by
  refine ⟨fun j => ?_, fun j hj => ?_⟩ <;> by_cases hji : j = i
  · subst hji
    show ((s.goto j p).pc j).fits (s.mutex.pc j) = true
    rw [goto_pc_self, hout]
    exact hfits
  · show ((s.goto i p).pc j).fits (s.mutex.pc j) = true
    rw [goto_pc_of_ne hji]
    exact h.fits j
  · subst hji
    show ((s.goto j p).pc j).holds (s.mutex.pc j) = true
    rw [goto_pc_self, hout]
    cases p with
    | idle => exact absurd rfl hp
    | within f | leaving f => rfl
  · show ((s.goto i p).pc j).holds (s.mutex.pc j) = true
    rw [goto_pc_of_ne hji]
    exact h.owner j hj

omit [DecidableEq ι] in
/-- A step inside `lock()` or a wait stays within the function. -/
theorem Pc.inside_fits {p : Pc} {b : MutexLock.Act ι} (hb : inside b = true)
    (hfits : p.fits b.source = true) : ∃ f, p = .within f ∧ p.fits b.target = true := by
  cases p with
  | idle => cases b <;> cases hb <;> cases hfits
  | within f =>
    refine ⟨f, rfl, ?_⟩
    cases f <;> cases b <;> first | rfl | (cases hfits; done) | cases hb
  | leaving f => cases b <;> cases hb <;> cases hfits

omit [DecidableEq ι] in
theorem Pc.inside_holds {f : Call} {b : MutexLock.Act ι} {o : Option ι} (hb : inside b = true)
    (ho : o = some b.thread → (Pc.within f).holds b.source = true)
    (h : b.owner o = some b.thread) : (Pc.within f).holds b.target = true := by
  cases b with
  | lock i | unlock i | release i | wait i => cases hb
  | acquire i | assign i | reacquire i | restore i => rfl
  | block i => cases h
  | wake i => exact absurd (ho h) nofun

/-- **One step** keeps the places fitting. -/
theorem Placed.step (h : Placed s) (hs : s.step tids a = some s') : Placed s' := by
  have hmove := step_move hs
  cases hmove with
  | @call i f m hpc hm =>
    refine h.mutexStep hm ?_ fun ho => ?_
    · cases f <;> rfl
    · have hno := h.owner i ho
      rw [hpc] at hno
      cases hno
  | @mutex b m hb hm =>
    obtain ⟨hsource, -⟩ := MutexLock.step_pc hm
    have hfits := h.fits b.thread
    rw [hsource] at hfits
    obtain ⟨f, hf, hfits⟩ := Pc.inside_fits hb hfits
    refine h.mutexStay hm hfits fun ho => ?_
    have howner := h.owner b.thread
    rw [hsource] at howner
    rw [hf] at howner ⊢
    exact Pc.inside_holds hb howner ho
  | @again i m hcount hm =>
    have hpc : s.pc i = .within .wait := (Option.ite_none_right_eq_some.mp hs).1.1
    refine h.mutexStay hm ?_ fun _ => ?_
    · show (s.pc i).fits .block = true
      rw [hpc]
      rfl
    · show (s.pc i).holds .block = true
      rw [hpc]
      rfl
  | pass hpc hout hcount => exact h.goto hout nofun rfl
  | @countDown i overflow count mutex hpc hout hcount hmutex =>
    have hgoto : Placed (s.goto i (.leaving .countDown)) := h.goto hout nofun rfl
    rcases hmutex with ⟨-, rfl⟩ | ⟨-, rfl⟩
    · exact ⟨hgoto.notifyAll.fits, hgoto.notifyAll.owner⟩
    · exact ⟨hgoto.fits, hgoto.owner⟩
  | @unlock i m hm =>
    have hpc : s.pc i = .leaving .wait ∨ s.pc i = .leaving .countDown :=
      (Option.ite_none_right_eq_some.mp hs).1
    refine h.mutexStay hm ?_ fun _ => ?_
    · show (s.pc i).fits .release = true
      rcases hpc with hpc | hpc <;> rw [hpc] <;> rfl
    · show (s.pc i).holds .release = true
      rcases hpc with hpc | hpc <;> rw [hpc] <;> rfl
  | ret hpc hm => exact h.mutexStep hm rfl nofun

theorem placed_exec {acts : List (Act ι)}
    (h : Lts.exec (step tids) (new count) acts = some s) : Placed s :=
  Lts.exec_keeps (fun _ _ _ hi hs => hi.step hs) placed_new h

/-- Who does something else than call a function is in one. -/
theorem Placed.busy (h : Placed s) (hs : s.step tids a = some s') (hcall : a.isCall = false) :
    s.pc a.thread ≠ .idle := by
  have hmove := step_move hs
  intro hidle
  cases hmove with
  | call => cases hcall
  | @mutex b m hb hm =>
    have hfits := h.fits b.thread
    rw [(MutexLock.step_pc hm).1] at hfits
    obtain ⟨f, hf, -⟩ := Pc.inside_fits hb hfits
    exact absurd (hidle.symm.trans hf) nofun
  | again | pass | countDown =>
    have hpc := (Option.ite_none_right_eq_some.mp hs).1.1
    exact absurd (hidle.symm.trans hpc) nofun
  | unlock =>
    rcases (Option.ite_none_right_eq_some.mp hs).1 with hpc | hpc <;>
      exact absurd (hidle.symm.trans hpc) nofun
  | ret hpc => exact absurd (hidle.symm.trans hpc) nofun

/-! ## The latch stays down -/

/-- `count_` after `n` calls of `countDown()`, while they cannot overflow. -/
def Counted (count : Int32) (n : Nat) (s : CountDownLatch ι) : Prop :=
  Int32.minValue.toInt ≤ count.toInt - n → s.count.toInt = count.toInt - n

omit [DecidableEq ι] in
theorem counted_new : Counted count 0 (new count : CountDownLatch ι) := fun _ =>
  (Int.sub_zero _).symm

theorem decrement_toInt_of_ne {k : Int32} (h : k ≠ Int32.minValue) (overflow : Int32) :
    (decrement k overflow).toInt = k.toInt - 1 := by
  have hlt := k.toInt_lt
  have hle := k.le_toInt
  have hmin : k.toInt ≠ -2 ^ 31 := fun e => h (Int32.toInt_inj.mp e)
  rw [decrement, if_neg h, Int32.toInt_sub]
  simp only [Int32.toInt_one]
  exact Int.bmod_eq_of_le (by omega) (by omega)

theorem Counted.step (h : Counted count n s) (hs : s.step tids a = some s') :
    Counted count (n + if a.countsDown then 1 else 0) s' := by
  have hmove := step_move hs
  cases hmove with
  | call | mutex | again | pass | unlock | ret => exact h
  | @countDown i overflow k mutex hpc hout hcount hmutex =>
    intro hn
    simp only [Act.countsDown, if_true] at hn ⊢
    push_cast at hn
    have hk := h (by omega)
    have hmin : s.count ≠ Int32.minValue := by
      intro e
      rw [e] at hk
      omega
    show k.toInt = _
    rw [hcount, decrement_toInt_of_ne hmin, hk]
    push_cast
    omega

theorem counted_exec {acts : List (Act ι)} (h : Lts.exec (step tids) (new count) acts = some s) :
    Counted count (acts.countP Act.countsDown) s := by
  refine Lts.exec_inv (P := fun acts s => Counted count (acts.countP Act.countsDown) s) ?_ ?_ h
  · exact counted_new
  · intro acts s a s' _ ih hs
    rw [List.countP_append, List.countP_singleton]
    exact ih.step hs

/-! ## The way out -/

/-- Thread `i` is not kept: the latch is down, or the thread is not in `wait()`. -/
structure Free (tids : Tids ι) (count : Int32) (i : ι) (s : CountDownLatch ι) : Prop where
  inv : ∃ n, Inv tids count n s
  placed : Placed s
  free : s.count ≤ 0 ∨ s.pc i ≠ .within .wait

/-- The thread calls a function, or `--count_` overflows. -/
def Ends (i : ι) (s : CountDownLatch ι) (a : Act ι) : Prop :=
  (a.isCall = true ∧ a.thread = i) ∨ (a.countsDown = true ∧ s.count = Int32.minValue)

omit [DecidableEq ι] in
theorem Free.not_waits (h : Free tids count i s) :
    s.mutex.pc i ≠ .block ∧ s.mutex.pc i ≠ .blocked := by
  have hfits := h.placed.fits i
  obtain ⟨n, hinv⟩ := h.inv
  have hno : ∀ p : MutexLock.Pc, p = .block ∨ p = .blocked → s.mutex.pc i ≠ p := by
    intro p hp e
    have hpos : 0 < s.count := hinv.waits i (by rwa [e])
    have hwait : s.pc i ≠ .within .wait := h.free.resolve_left (Int32.not_le.mpr hpos)
    rw [e] at hfits
    cases hpc : s.pc i with
    | idle => rw [hpc] at hfits; rcases hp with rfl | rfl <;> cases hfits
    | within f =>
      rw [hpc] at hfits hwait
      cases f with
      | wait => exact hwait rfl
      | countDown => rcases hp with rfl | rfl <;> cases hfits
    | leaving f => rw [hpc] at hfits; rcases hp with rfl | rfl <;> cases hfits
  exact ⟨hno _ (.inl rfl), hno _ (.inr rfl)⟩

/-- The other threads move a thread by a broadcast at most. -/
theorem step_other (hs : s.step tids a = some s') (hi : i ≠ a.thread) :
    s'.pc i = s.pc i ∧ (s'.mutex.pc i = s.mutex.pc i ∨
      s'.count = 0 ∧ s'.mutex.pc i = condition.awaken (s.mutex.pc i)) := by
  have hmove := step_move hs
  cases hmove with
  | call hpc hm | ret hpc hm =>
    exact ⟨goto_pc_of_ne hi _, .inl ((MutexLock.step_move hm).pc_of_ne hi)⟩
  | mutex hb hm => exact ⟨rfl, .inl ((MutexLock.step_move hm).pc_of_ne hi)⟩
  | again hcount hm => exact ⟨rfl, .inl ((MutexLock.step_move hm).pc_of_ne hi)⟩
  | unlock hm => exact ⟨rfl, .inl ((MutexLock.step_move hm).pc_of_ne hi)⟩
  | pass hpc hout hcount => exact ⟨goto_pc_of_ne hi _, .inl rfl⟩
  | countDown hpc hout hcount hmutex =>
    refine ⟨goto_pc_of_ne hi _, ?_⟩
    rcases hmutex with ⟨h0, rfl⟩ | ⟨-, rfl⟩
    · exact .inr ⟨h0, rfl⟩
    · exact .inl rfl

/-- Nobody moves a thread that does not wait. -/
theorem Free.stays (h : Free tids count i s) (hs : s.step tids a = some s') (hi : i ≠ a.thread) :
    s'.pc i = s.pc i ∧ s'.mutex.pc i = s.mutex.pc i := by
  obtain ⟨hpc, hm | ⟨-, hm⟩⟩ := step_other hs hi
  · exact ⟨hpc, hm⟩
  · have hno : condition.waits (s.mutex.pc i) = false := decide_eq_false h.not_waits.2
    rw [CondVar.awaken_of_not_waits hno] at hm
    exact ⟨hpc, hm⟩

theorem Free.other (h : Free tids count i s) (hs : s.step tids a = some s') (hi : i ≠ a.thread) :
    s'.left i = s.left i := by
  obtain ⟨hpc, hm⟩ := h.stays hs hi
  rw [left, left, hpc, hm]

/-- A step of the thread itself. -/
theorem Free.own (h : Free tids count i s) (hs : s.step tids a = some s') (hi : a.thread = i)
    (hcall : a.isCall = false) : s'.left i < s.left i := by
  subst hi
  have hmove := step_move hs
  cases hmove with
  | call hpc hm => cases hcall
  | @mutex b m hb hm =>
    obtain ⟨hsource, htarget⟩ := MutexLock.step_pc hm
    obtain ⟨hblock, hblocked⟩ := h.not_waits
    have hfits := h.placed.fits b.thread
    rw [hsource] at hfits
    obtain ⟨f, hf, -⟩ := Pc.inside_fits hb hfits
    show (s.pc b.thread).left (m.pc b.thread) < (s.pc b.thread).left (s.mutex.pc b.thread)
    rw [htarget, hsource, hf]
    cases b with
    | lock i | unlock i | release i | wait i => cases hb
    | acquire i | assign i | reacquire i | restore i =>
      simp [Pc.left, MutexLock.Act.source, MutexLock.Act.target]
    | block i => exact absurd hsource hblock
    | wake i => exact absurd hsource hblocked
  | @again i m hcount hm =>
    have hpc : s.pc i = .within .wait := (Option.ite_none_right_eq_some.mp hs).1.1
    exact absurd hpc (h.free.resolve_left (Int32.not_le.mpr hcount))
  | @pass i hpc hout hcount =>
    show ((s.goto i (.leaving .wait)).pc i).left (s.mutex.pc i) < (s.pc i).left (s.mutex.pc i)
    rw [goto_pc_self, hpc, hout]
    decide
  | @countDown i overflow k mutex hpc hout hcount hmutex =>
    have hstays : mutex.pc i = .out := by
      rcases hmutex with ⟨-, rfl⟩ | ⟨-, rfl⟩
      · show condition.awaken (s.mutex.pc i) = .out
        rw [hout]
        rfl
      · exact hout
    show ((s.goto i (.leaving .countDown)).pc i).left (mutex.pc i) <
      (s.pc i).left (s.mutex.pc i)
    rw [goto_pc_self, hpc, hout, hstays]
    decide
  | @unlock i m hm =>
    have hsource : s.mutex.pc i = .out := (MutexLock.step_pc hm).1
    have htarget : m.pc i = .release := (MutexLock.step_pc hm).2
    have hpc : s.pc i = .leaving .wait ∨ s.pc i = .leaving .countDown :=
      (Option.ite_none_right_eq_some.mp hs).1
    show (s.pc i).left (m.pc i) < (s.pc i).left (s.mutex.pc i)
    rcases hpc with hpc | hpc <;> rw [hpc, hsource, htarget] <;> decide
  | @ret i f m hpc hm =>
    have hsource : s.mutex.pc i = .release := (MutexLock.step_pc hm).1
    show ((s.goto i .idle).pc i).left (m.pc i) < (s.pc i).left (s.mutex.pc i)
    rw [goto_pc_self, hpc, hsource]
    exact Nat.one_pos

/-- Who is not kept stays so until it calls a function again. -/
theorem Free.step (h : Free tids count i s) (hs : s.step tids a = some s') (hq : ¬ Ends i s a) :
    Free tids count i s' := by
  obtain ⟨n, hinv⟩ := h.inv
  have hmove := step_move hs
  refine ⟨⟨_, hinv.step hmove⟩, h.placed.step hs, ?_⟩
  rcases h.free with hcount | hpc
  · left
    cases hmove with
    | call | mutex | again | pass | unlock | ret => exact hcount
    | @countDown j overflow k mutex hpc hout hk hmutex =>
      have hmin : s.count ≠ Int32.minValue := fun e => hq (.inr ⟨rfl, e⟩)
      have hdec := decrement_toInt_of_ne hmin overflow
      rw [Int32.le_iff_toInt_le] at hcount
      show k ≤ 0
      rw [Int32.le_iff_toInt_le, hk, hdec]
      omega
  · right
    by_cases hi : i = a.thread
    · subst hi
      cases hmove with
      | call => exact absurd (.inl ⟨rfl, rfl⟩) hq
      | mutex | again | unlock => exact hpc
      | pass | countDown | ret =>
        intro e
        cases (goto_pc_self ..).symm.trans e
    · rw [(step_other hs hi).1]
      exact hpc

/-- **The countdown** of a thread's way out. -/
theorem left_countdown (tids : Tids ι) (count : Int32) (i : ι) :
    Lts.Countdown (step tids) (Free tids count i) (fun a => decide (a.thread = i)) (Ends i)
      (fun s => s.left i) where
  keeps h hs hq := h.step hs hq
  lowers h hs hq hp := by
    have hi := of_decide_eq_true hp
    refine h.own hs hi ?_
    cases hc : Act.isCall _ with
    | false => rfl
    | true => exact absurd (.inl ⟨hc, hi⟩) hq
  raisesNot h hs _ hp := Nat.le_of_eq (h.other hs fun e => of_decide_eq_false hp e.symm)

/-! ## Somebody can step -/

/-- A step towards the return that needs no spurious wake-up. -/
def Act.onward (a : Act ι) : Prop := a.isCall = false ∧ a.spurious = false

theorem Placed.owner_step (tids : Tids ι) (h : Placed s) (hj : s.mutex.owner = some j) :
    ∃ a : Act ι, a.onward ∧ a.thread = j ∧ (s.step tids a).isSome := by
  have hholds := h.owner j hj
  have hfits := h.fits j
  cases hp : s.mutex.pc j with
  | acquire | blocked | reacquire =>
    rw [hp] at hholds
    cases hpc : s.pc j <;> rw [hpc] at hholds <;> cases hholds
  | assign =>
    exact ⟨.mutex (.assign j), ⟨rfl, rfl⟩, rfl,
      by simp [CountDownLatch.step, inside, MutexLock.step, hp]⟩
  | block =>
    exact ⟨.mutex (.block j), ⟨rfl, rfl⟩, rfl,
      by simp [CountDownLatch.step, inside, MutexLock.step, hp]⟩
  | restore =>
    exact ⟨.mutex (.restore j), ⟨rfl, rfl⟩, rfl,
      by simp [CountDownLatch.step, inside, MutexLock.step, hp]⟩
  | release =>
    rw [hp] at hfits
    cases hpc : s.pc j with
    | idle => rw [hpc] at hfits; cases hfits
    | within f => rw [hpc] at hfits; cases f <;> cases hfits
    | leaving f =>
      exact ⟨.ret j f, ⟨rfl, rfl⟩, rfl, by simp [CountDownLatch.step, MutexLock.step, hp, hpc]⟩
  | out =>
    cases hpc : s.pc j with
    | idle => rw [hp, hpc] at hholds; cases hholds
    | within f =>
      cases f with
      | wait =>
        refine ⟨.test j, ⟨rfl, rfl⟩, rfl, ?_⟩
        by_cases hcount : 0 < s.count <;>
          simp [CountDownLatch.step, MutexLock.step, hp, hpc, hcount, hj]
      | countDown => exact ⟨.countDown j 0, ⟨rfl, rfl⟩, rfl, by simp [CountDownLatch.step, hp, hpc]⟩
    | leaving f =>
      exact ⟨.unlock j, ⟨rfl, rfl⟩, rfl,
        by cases f <;> simp [CountDownLatch.step, MutexLock.step, hp, hpc, hj]⟩

/-- **No deadlock**: where nobody has the mutex the thread gets it. -/
theorem Free.enabled (h : Free tids count i s) (hpc : s.pc i ≠ .idle) :
    ∃ a : Act ι, a.onward ∧ (a.thread = i ∨ s.mutex.owner = some a.thread) ∧
      (s.step tids a).isSome := by
  cases howner : s.mutex.owner with
  | some j =>
    obtain ⟨a, ha, rfl, hs⟩ := h.placed.owner_step tids howner
    exact ⟨a, ha, .inr rfl, hs⟩
  | none =>
    obtain ⟨n, hinv⟩ := h.inv
    have hno : ∀ p : MutexLock.Pc, p.owns = true → s.mutex.pc i ≠ p := by
      intro p hp e
      have hown := hinv.mutex.owns i (by rwa [e])
      rw [howner] at hown
      cases hown
    cases hp : s.mutex.pc i with
    | acquire =>
      exact ⟨.mutex (.acquire i), ⟨rfl, rfl⟩, .inl rfl,
        by simp [CountDownLatch.step, inside, MutexLock.step, hp, howner]⟩
    | reacquire =>
      exact ⟨.mutex (.reacquire i), ⟨rfl, rfl⟩, .inl rfl,
        by simp [CountDownLatch.step, inside, MutexLock.step, hp, howner]⟩
    | out =>
      have hown := hinv.owner i hpc hp
      rw [howner] at hown
      cases hown
    | blocked => exact absurd hp h.not_waits.2
    | assign | release | block | restore => exact absurd hp (hno _ rfl)

/-- **A thread gets out.** In every run, a thread that is in `countDown()`, or in `wait()` after as
many `countDown()` calls as the latch was made with, makes at most five steps before it calls again,
and until it has returned it can step or the owner of the mutex can, without a spurious wake-up. -/
theorem leaves_within (tids : Tids ι) (count : Int32) (pre post : List (Act ι))
    (s1 s : CountDownLatch ι) (i : ι) (h1 : Lts.exec (step tids) (new count) pre = some s1)
    (h : Lts.exec (step tids) s1 post = some s)
    (hfree : count.toInt ≤ pre.countP Act.countsDown ∨ s1.pc i ≠ .within .wait)
    (hfew : Int32.minValue.toInt ≤ count.toInt - (pre ++ post).countP Act.countsDown)
    (hcall : ∀ f, Act.call i f ∉ post) :
    post.countP (fun a => decide (a.thread = i)) ≤ 5 ∧
    (s.pc i ≠ .idle → ∃ a : Act ι, a.onward ∧ (a.thread = i ∨ s.mutex.owner = some a.thread) ∧
      (s.step tids a).isSome) := by
  have hcounted := counted_exec h1
  have hfree1 : Free tids count i s1 := by
    refine ⟨⟨_, inv_exec h1⟩, placed_exec h1, hfree.imp_left fun hle => ?_⟩
    rw [List.countP_append] at hfew
    have hk := hcounted (by push_cast at hfew; omega)
    rw [Int32.le_iff_toInt_le, hk, Int32.toInt_zero]
    omega
  -- no step of `post` ends the way out
  have hends : ∀ before a after u, post = before ++ a :: after →
      Lts.exec (step tids) s1 before = some u → ¬ Ends i u a := by
    rintro before a after u e hu (⟨hc, hi⟩ | ⟨hc, hmin⟩)
    · cases a with
      | call j f =>
        subst hi
        exact hcall f (by rw [e]; exact List.mem_append_right _ List.mem_cons_self)
      | mutex | test | countDown | unlock | ret => cases hc
    · have hru : Lts.exec (step tids) (new count) (pre ++ before) = some u := by
        rw [Lts.exec_append, h1, Option.bind_some, hu]
      rw [e, List.countP_append, List.countP_append, List.countP_cons_of_pos hc] at hfew
      have hk := counted_exec hru (by rw [List.countP_append]; push_cast at hfew ⊢; omega)
      rw [hmin, List.countP_append] at hk
      push_cast at hfew hk
      omega
  obtain ⟨hfree2, hle⟩ := (left_countdown tids count i).countP_le_of hfree1 h hends
  have h5 : s1.left i ≤ 5 := Pc.left_le ..
  exact ⟨by omega, hfree2.enabled⟩

/-- The waiter of `oneWaiter` after the `countDown()`, while the other thread calls again. -/
theorem leaves_within_oneWaiter :
    ∃ s1 s, Lts.exec (step twoThreads) (new 1) (oneWaiter.take 16) = some s1 ∧
      Lts.exec (step twoThreads) s1 [.call true .countDown, .mutex (.acquire true)] = some s ∧
      s.mutex.pc false = .reacquire ∧ s.mutex.owner = some true ∧
      ∃ a : Act Bool, a.onward ∧ (a.thread = false ∨ s.mutex.owner = some a.thread) ∧
        (s.step twoThreads a).isSome := by
  obtain ⟨s, he, hpc, hidle, howner⟩ : ∃ s, Lts.exec (step twoThreads) (new 1)
      (oneWaiter.take 16 ++ [.call true .countDown, .mutex (.acquire true)]) = some s ∧
        s.mutex.pc false = .reacquire ∧ s.pc false = .within .wait ∧ s.mutex.owner = some true :=
    ⟨_, rfl, rfl, rfl, rfl⟩
  obtain ⟨s1, h1, h⟩ := Lts.exec_append_some he
  exact ⟨s1, s, h1, h, hpc, howner, (leaves_within twoThreads 1 _ _ s1 s false h1 h
    (.inl (by decide)) (by decide) (by simp)).2 (by rw [hidle]; nofun)⟩

end CountDownLatch

end MultiThreadLog
