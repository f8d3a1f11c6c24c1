import Mathlib.Logic.Function.Basic
import MultiThreadLog.Lib.Runs

/-!
# Operations under one mutex

Threads perform operations on a shared state. An operation is called, gets the mutex, works on the
state in small steps and gives the mutex back when it returns; the threads may step in any order.
`Work` says what the small steps are, and `Runs` what an operation does when it is alone.

Whenever the mutex is free, the shared state is the one that the operations give when they are
performed alone and one after another, in the order in which they got the mutex (`inv_exec`). An
operation gets the mutex between its call and its return, so the order is one of real time: what
was entered in a part of a run stays in front (`entered_prefix`), and every thread's own operations
come in the order of its calls (`calls_eq`). When a function computes the small steps of an
operation (`Steps.rest`), the run is one of that function (`Seq.exec`).
-/

namespace Monitor

/-- What an operation does with the mutex: `κ` says how far it is. -/
structure Work (σ κ op : Type) where
  start : op → κ
  next : σ → κ → Option (σ × Option κ)

/-- Where a thread is; `inside none` has done its work. -/
inductive Place (κ op : Type) where
  | idle
  | called (o : op)
  | inside (k : Option κ)

structure State (σ κ op ι : Type) where
  shared : σ
  owner : Option ι
  place : ι → Place κ op
  /-- The operations that got the mutex, in order. -/
  entered : List (ι × op)

inductive Act (op ι : Type) where
  | call (i : ι) (o : op)
  | enter (i : ι)
  | work (i : ι)
  | leave (i : ι)

variable {σ κ op ι : Type}

def init (s : σ) : State σ κ op ι := ⟨s, none, fun _ => .idle, []⟩

variable [DecidableEq ι]

def State.goto (s : State σ κ op ι) (i : ι) (p : Place κ op) : State σ κ op ι :=
  { s with place := Function.update s.place i p }

def step (w : Work σ κ op) (s : State σ κ op ι) : Act op ι → Option (State σ κ op ι)
  | .call i o =>
    match s.place i with
    | .idle => some (s.goto i (.called o))
    | _ => none
  | .enter i =>
    match s.place i with
    | .called o =>
      if s.owner.isNone then
        some { s.goto i (.inside (some (w.start o))) with
          owner := some i
          entered := s.entered ++ [(i, o)] }
      else none
    | _ => none
  | .work i =>
    match s.place i with
    | .inside (some k) =>
      (w.next s.shared k).map fun r => { s.goto i (.inside r.2) with shared := r.1 }
    | _ => none
  | .leave i =>
    match s.place i with
    | .inside none => some { s.goto i .idle with owner := none }
    | _ => none

/-! ## Operations alone -/

namespace Work

variable (w : Work σ κ op)

/-- Small steps of one operation, with nobody else at the state. -/
inductive Steps : σ → Option κ → σ → Option κ → Prop where
  | refl (s : σ) (k : Option κ) : Steps s k s k
  | snoc {s s1 s2 : σ} {k k2 : Option κ} {k1 : κ} (h : Steps s k s1 (some k1))
      (hn : w.next s1 k1 = some (s2, k2)) : Steps s k s2 k2

def Runs (o : op) (s s' : σ) : Prop := w.Steps s (some (w.start o)) s' none

/-- Operations alone, one after another. -/
inductive Seq (s0 : σ) : List op → σ → Prop where
  | nil : Seq s0 [] s0
  | snoc {os : List op} {s s' : σ} {o : op} (h : Seq s0 os s) (hr : w.Runs o s s') :
      Seq s0 (os ++ [o]) s'

variable {w}

/-- `rest k s` is what the steps that are left compute from `s`. -/
theorem Steps.rest {rest : Option κ → σ → Option σ}
    (hrest : ∀ s k s' k', w.next s k = some (s', k') → rest (some k) s = rest k' s')
    {s s' : σ} {k k' : Option κ} (h : w.Steps s k s' k') : rest k s = rest k' s' := by
  induction h with
  | refl => rfl
  | snoc _ hn ih => exact ih.trans (hrest _ _ _ _ hn)

/-- Operations that compute a function are performed by it. -/
theorem Seq.exec {f : σ → op → Option σ} (hf : ∀ o s s', w.Runs o s s' → f s o = some s')
    {s0 s : σ} {os : List op} (h : w.Seq s0 os s) : Lts.exec f s0 os = some s := by
  induction h with
  | nil => rfl
  | snoc _ hr ih => exact Lts.exec_snoc ih (hf _ _ _ hr)

end Work

/-! ## What a step can do -/

variable {w : Work σ κ op} {s s' : State σ κ op ι} {s0 : σ} {a : Act op ι} {i j : ι}

inductive Move (w : Work σ κ op) (s : State σ κ op ι) : Act op ι → State σ κ op ι → Prop where
  | call {i : ι} {o : op} (hp : s.place i = .idle) : Move w s (.call i o) (s.goto i (.called o))
  | enter {i : ι} {o : op} (hp : s.place i = .called o) (hfree : s.owner = none) :
      Move w s (.enter i) { s.goto i (.inside (some (w.start o))) with
        owner := some i
        entered := s.entered ++ [(i, o)] }
  | work {i : ι} {k : κ} {s1 : σ} {k1 : Option κ} (hp : s.place i = .inside (some k))
      (hn : w.next s.shared k = some (s1, k1)) :
      Move w s (.work i) { s.goto i (.inside k1) with shared := s1 }
  | leave {i : ι} (hp : s.place i = .inside none) :
      Move w s (.leave i) { s.goto i .idle with owner := none }

theorem step_move (h : step w s a = some s') : Move w s a s' := by
  cases a with
  | call i o =>
    cases hp : s.place i <;> simp only [step, hp] at h <;> cases h
    exact .call hp
  | enter i =>
    cases hp : s.place i <;> simp only [step, hp] at h <;> try cases h
    obtain ⟨hfree, h⟩ := Option.ite_none_right_eq_some.mp h
    cases h
    exact .enter hp (Option.isNone_iff_eq_none.mp hfree)
  | work i =>
    cases hp : s.place i with
    | inside k =>
      cases k with
      | some k =>
        simp only [step, hp] at h
        obtain ⟨r, hr, rfl⟩ := Option.map_eq_some_iff.mp h
        exact .work hp hr
      | none =>
        simp only [step, hp] at h
        cases h
    | _ =>
      simp only [step, hp] at h
      cases h
  | leave i =>
    cases hp : s.place i with
    | inside k =>
      cases k with
      | none =>
        simp only [step, hp] at h
        cases h
        exact .leave hp
      | some k =>
        simp only [step, hp] at h
        cases h
    | _ =>
      simp only [step, hp] at h
      cases h

theorem goto_place_self (s : State σ κ op ι) (i : ι) (p : Place κ op) : (s.goto i p).place i = p :=
  Function.update_self ..

theorem goto_place_of_ne (h : j ≠ i) (p : Place κ op) : (s.goto i p).place j = s.place j :=
  Function.update_of_ne h ..

/-! ## The invariant -/

/-- The operations that got the mutex were performed alone, but for the owner's, which is on its
way. -/
structure Inv (w : Work σ κ op) (s0 : σ) (s : State σ κ op ι) : Prop where
  inside : ∀ i k, s.place i = .inside k → s.owner = some i
  free : s.owner = none → w.Seq s0 (s.entered.map Prod.snd) s.shared
  held : ∀ i, s.owner = some i → ∃ before o s1 k, s.entered = before ++ [(i, o)] ∧
    w.Seq s0 (before.map Prod.snd) s1 ∧ s.place i = .inside k ∧
    w.Steps s1 (some (w.start o)) s.shared k

omit [DecidableEq ι] in
theorem inv_init : Inv w s0 (init s0 : State σ κ op ι) :=
  ⟨nofun, fun _ => .nil, nofun⟩

theorem Inv.step (h : Inv w s0 s) (hs : Move w s a s') : Inv w s0 s' := by
  cases hs with
  | @call i o hp =>
    refine ⟨fun j k hj => ?_, h.free, fun j hj => ?_⟩
    · by_cases hji : j = i
      · rw [hji, goto_place_self] at hj
        cases hj
      · rw [goto_place_of_ne hji] at hj
        exact h.inside j k hj
    · obtain ⟨before, o', s1, k, he, hseq, hplace, hsteps⟩ := h.held j hj
      have hji : j ≠ i := by
        rintro rfl
        rw [hp] at hplace
        cases hplace
      exact ⟨before, o', s1, k, he, hseq, (goto_place_of_ne hji _).trans hplace, hsteps⟩
  | @enter i o hp hfree =>
    refine ⟨fun j k hj => ?_, nofun, fun j hj => ?_⟩
    · by_cases hji : j = i
      · rw [hji]
      · have howner := h.inside j k ((goto_place_of_ne hji _).symm.trans hj)
        rw [hfree] at howner
        cases howner
    · obtain rfl : i = j := Option.some_inj.mp hj
      exact ⟨s.entered, o, s.shared, _, rfl, h.free hfree, goto_place_self .., .refl _ _⟩
  | @work i k s1 k1 hp hn =>
    have howner := h.inside i _ hp
    refine ⟨fun j k' hj => ?_, fun hfree => ?_, fun j hj => ?_⟩
    · by_cases hji : j = i
      · rw [hji]
        exact howner
      · exact h.inside j k' ((goto_place_of_ne hji _).symm.trans hj)
    · exact absurd (hfree.symm.trans howner) nofun
    · obtain rfl : i = j := Option.some_inj.mp (howner.symm.trans hj)
      obtain ⟨before, o, s2, k2, he, hseq, hplace, hsteps⟩ := h.held i howner
      rw [hp] at hplace
      cases hplace
      exact ⟨before, o, s2, k1, he, hseq, goto_place_self .., hsteps.snoc hn⟩
  | @leave i hp =>
    have howner := h.inside i _ hp
    refine ⟨fun j k hj => ?_, fun _ => ?_, nofun⟩
    · by_cases hji : j = i
      · rw [hji] at hj
        cases (goto_place_self s i _).symm.trans hj
      · -- nobody else is inside
        have howner' := h.inside j k ((goto_place_of_ne hji _).symm.trans hj)
        rw [howner, Option.some_inj] at howner'
        exact absurd howner'.symm hji
    · obtain ⟨before, o, s1, k, he, hseq, hplace, hsteps⟩ := h.held i howner
      rw [hp] at hplace
      cases hplace
      show w.Seq s0 (s.entered.map Prod.snd) s.shared
      rw [he, List.map_append]
      exact hseq.snoc hsteps

/-- **Atomicity.** Every run keeps the invariant. -/
theorem inv_exec {acts : List (Act op ι)} (h : Lts.exec (step w) (init s0) acts = some s) :
    Inv w s0 s :=
  Lts.exec_keeps (fun _ _ _ hi hs => hi.step (step_move hs)) inv_init h

/-- The order in which operations got the mutex is not changed afterwards. -/
theorem entered_prefix {acts : List (Act op ι)} (h : Lts.exec (step w) s acts = some s') :
    s.entered <+: s'.entered := by
  refine Lts.exec_keeps (P := fun u => s.entered <+: u.entered) (fun u a v hp hs => ?_)
    (List.prefix_refl _) h
  cases step_move hs with
  | call | work | leave => exact hp
  | enter => exact hp.trans (List.prefix_append _ _)

/-! ## The order of the calls -/

/-- The operations called by `i`. -/
def calls (i : ι) (acts : List (Act op ι)) : List op :=
  acts.filterMap fun a => match a with
    | .call j o => if j = i then some o else none
    | _ => none

/-- The operation a thread has called and not entered. -/
def Place.waiting : Place κ op → List op
  | .called o => [o]
  | _ => []

/-- The operations that `i` entered, in order. -/
def State.enteredBy (s : State σ κ op ι) (i : ι) : List op :=
  (s.entered.filter fun p => p.1 = i).map Prod.snd

theorem calls_snoc (acts : List (Act op ι)) (a : Act op ι) :
    calls i (acts ++ [a]) = calls i acts ++ calls i [a] := List.filterMap_append ..

/-- **Program order.** Each thread enters its operations in the order of its calls, and none is
left out. -/
theorem calls_eq {acts : List (Act op ι)} (h : Lts.exec (step w) (init s0) acts = some s) (i : ι) :
    calls i acts = s.enteredBy i ++ (s.place i).waiting := by
  refine Lts.exec_inv (P := fun acts s => calls i acts = s.enteredBy i ++ (s.place i).waiting)
    rfl (fun acts s a s' _ ih hs => ?_) h
  rw [calls_snoc, ih]
  cases step_move hs with
  | @call j o hp | @enter j o hp =>
    by_cases hji : j = i
    · subst hji
      simp [calls, State.enteredBy, State.goto, hp, Place.waiting]
    · simp [calls, State.enteredBy, State.goto, hji, Function.update_of_ne (Ne.symm hji)]
  | @work j k s1 k1 hp | @leave j hp =>
    by_cases hji : j = i
    · subst hji
      simp [calls, State.enteredBy, State.goto, hp, Place.waiting]
    · simp [calls, State.enteredBy, State.goto, Function.update_of_ne (Ne.symm hji)]

end Monitor
