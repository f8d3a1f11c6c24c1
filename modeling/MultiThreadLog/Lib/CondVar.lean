import Mathlib.Algebra.GroupWithZero.Nat
import Mathlib.Data.List.Basic

/-!
# Condition variables

The waiters of a condition variable among a list of threads. A thread waits (`waits`) until it is
woken; a woken thread (`woken`) has a wake-up pending until it runs again. `signal` wakes one
waiter, of the caller's choice, if there is one; `broadcast` wakes all.

`Covers c l n` is what a producer-consumer protocol relies on: when somebody waits, at least `n`
threads are woken and not yet running, where `n` counts the units that are there for the taking.
The rules say how the operations and a thread's own steps keep it: a unit may be added with a
signal (`Covers.signal`), a thread may leave with a unit (`Covers.take`), and a thread may start to
wait when there is none (`covers_zero`).
-/

open scoped List

/-- What the states `α` of a thread say about one condition variable. -/
structure CondVar (α : Type) where
  waits : α → Bool
  woken : α → Bool
  wake : α → α
  woken_wake : ∀ a, waits a = true → woken (wake a) = true
  not_waits_wake : ∀ a, waits a = true → waits (wake a) = false
  not_woken : ∀ a, waits a = true → woken a = false

namespace CondVar

variable {α : Type} (c : CondVar α)

/-- Wake the waiter at `choice`; without a choice there is nobody to wake. -/
def signal (l : List α) : Option Nat → Option (List α)
  | some i => l[i]?.bind fun a => if c.waits a then some (l.set i (c.wake a)) else none
  | none => if l.any c.waits then none else some l

def broadcast (l : List α) : List α := l.map fun a => if c.waits a then c.wake a else a

/-- What a broadcast does to one thread. -/
def awaken (a : α) : α := if c.waits a then c.wake a else a

/-- When somebody waits, `n` threads are on their way. -/
def Covers (l : List α) (n : Nat) : Prop := (∃ a ∈ l, c.waits a = true) → n ≤ l.countP c.woken

variable {c} {l l' : List α} {i n : Nat} {a b : α}

/-- What a signal does. -/
theorem signal_cases {choice : Option Nat} (h : c.signal l choice = some l') :
    (∃ i a, l[i]? = some a ∧ c.waits a = true ∧ l' = l.set i (c.wake a)) ∨
    ((∀ a ∈ l, c.waits a = false) ∧ l' = l) := by
  cases choice with
  | some i =>
    obtain ⟨a, ha, h⟩ := Option.bind_eq_some_iff.mp h
    split at h
    · rename_i hw
      exact .inl ⟨i, a, ha, hw, (Option.some.inj h).symm⟩
    · cases h
  | none =>
    simp only [signal] at h
    split at h
    · cases h
    · rename_i hn
      refine .inr ⟨fun a ha => ?_, (Option.some.inj h).symm⟩
      simpa using fun hw => hn (List.any_eq_true.mpr ⟨a, ha, hw⟩)

/-- Some signal is always possible. -/
theorem signal_defined (c : CondVar α) (l : List α) : ∃ choice l', c.signal l choice = some l' := by
  by_cases h : l.any c.waits = true
  · obtain ⟨a, ha, hw⟩ := List.any_eq_true.mp h
    obtain ⟨i, hi⟩ := List.getElem?_of_mem ha
    exact ⟨some i, l.set i (c.wake a), by rw [signal, hi, Option.bind_some, if_pos hw]⟩
  · exact ⟨none, l, if_neg h⟩

theorem awaken_of_not_waits (h : c.waits a = false) : c.awaken a = a := by
  unfold awaken
  rw [h]
  rfl

theorem not_waits_awaken (c : CondVar α) (a : α) : c.waits (c.awaken a) = false := by
  unfold awaken
  split
  · rename_i hw
    exact c.not_waits_wake a hw
  · rename_i hw
    simpa using hw

theorem not_waits_of_mem_broadcast (h : a ∈ c.broadcast l) : c.waits a = false := by
  obtain ⟨b, -, rfl⟩ := List.mem_map.mp h
  exact c.not_waits_awaken b

/-- Without a waiter a signal does nothing. -/
theorem signal_of_not_waits {choice : Option Nat} (h : ∀ a ∈ l, c.waits a = false)
    (hs : c.signal l choice = some l') : l' = l := by
  rcases signal_cases hs with ⟨i, a, ha, hw, -⟩ | ⟨-, rfl⟩
  · rw [h a (List.mem_of_getElem? ha)] at hw
    cases hw
  · rfl

theorem not_waits_set (h : ∀ a ∈ l, c.waits a = false) (hb : c.waits b = false) :
    ∀ a ∈ l.set i b, c.waits a = false := by
  intro a ha
  rcases List.mem_or_eq_of_mem_set ha with ha | rfl
  · exact h a ha
  · exact hb

/-! ## Counting -/

/-- The count of woken threads after one thread changed. -/
theorem countP_set_add (p : α → Bool) (ha : l[i]? = some a) :
    (l.set i b).countP p + (if p a then 1 else 0) = l.countP p + if p b then 1 else 0 := by
  obtain ⟨hlt, e⟩ := List.getElem?_eq_some_iff.mp ha
  have hle : (if p l[i] then 1 else 0) ≤ l.countP p := List.boole_getElem_le_countP hlt
  rw [List.countP_set hlt, e] at *
  omega

/-- A sum over the threads after one thread changed. -/
theorem sum_set_add (f : α → Nat) (ha : l[i]? = some a) :
    ((l.set i b).map f).sum + f a = (l.map f).sum + f b := by
  induction l generalizing i with
  | nil => simp at ha
  | cons x l ih =>
    cases i with
    | zero =>
      obtain rfl : x = a := by simpa using ha
      simp only [List.set_cons_zero, List.map_cons, List.sum_cons]
      omega
    | succ i =>
      have ih := ih (by simpa using ha)
      simp only [List.set_cons_succ, List.map_cons, List.sum_cons]
      omega

theorem sum_signal_le {choice : Option Nat} {f : α → Nat}
    (hf : ∀ a, c.waits a = true → f (c.wake a) ≤ f a) (h : c.signal l choice = some l') :
    (l'.map f).sum ≤ (l.map f).sum := by
  rcases signal_cases h with ⟨i, a, ha, hw, rfl⟩ | ⟨-, rfl⟩
  · have hsum := sum_set_add (b := c.wake a) f ha
    have hle := hf a hw
    omega
  · exact Nat.le_refl _

theorem covers_zero : c.Covers l 0 := fun _ => Nat.zero_le _

theorem Covers.mono {m : Nat} (h : c.Covers l n) (hm : m ≤ n) : c.Covers l m :=
  fun hw => Nat.le_trans hm (h hw)

theorem covers_of_not_waits (h : ∀ a ∈ l, c.waits a = false) : c.Covers l n := by
  rintro ⟨a, ha, hw⟩
  rw [h a ha] at hw
  cases hw

/-- **A unit is added and signalled.** -/
theorem Covers.signal {choice : Option Nat} (h : c.Covers l n)
    (hs : c.signal l choice = some l') : c.Covers l' (n + 1) := by
  rcases signal_cases hs with ⟨i, a, ha, hw, rfl⟩ | ⟨hno, rfl⟩
  · intro _
    have hn := h ⟨a, List.mem_of_getElem? ha, hw⟩
    have hcount := countP_set_add (b := c.wake a) c.woken ha
    rw [c.not_woken a hw, c.woken_wake a hw] at hcount
    simp only [Bool.false_eq_true, if_false, if_true] at hcount
    omega
  · exact covers_of_not_waits hno

/-- A waiter among the others was there before. -/
theorem exists_waits_of_set (hb : c.waits b = false)
    (h : ∃ x ∈ l.set i b, c.waits x = true) : ∃ x ∈ l, c.waits x = true := by
  obtain ⟨x, hx, hw⟩ := h
  rcases List.mem_or_eq_of_mem_set hx with hx | rfl
  · exact ⟨x, hx, hw⟩
  · rw [hb] at hw
    cases hw

/-- **A thread goes on with a unit**, woken or not. -/
theorem Covers.take (h : c.Covers l (n + 1)) (ha : l[i]? = some a) (hb : c.waits b = false) :
    c.Covers (l.set i b) n := by
  intro hw
  have hn := h (exists_waits_of_set hb hw)
  have hcount := countP_set_add (b := b) c.woken ha
  split at hcount <;> split at hcount <;> omega

/-- A thread that is not woken goes on, or a waiter is woken without a signal. -/
theorem Covers.set (h : c.Covers l n) (ha : l[i]? = some a) (hb : c.waits b = false)
    (hwoken : c.woken a = true → c.woken b = true) : c.Covers (l.set i b) n := by
  intro hw
  have hn := h (exists_waits_of_set hb hw)
  have hcount := countP_set_add (b := b) c.woken ha
  split at hcount
  · rename_i hwa
    rw [if_pos (hwoken hwa)] at hcount
    omega
  · split at hcount <;> omega

theorem Covers.append (h : c.Covers l n) (hb : c.waits b = false) : c.Covers (l ++ [b]) n := by
  rintro ⟨x, hx, hw⟩
  rw [List.countP_append]
  rcases List.mem_append.mp hx with hx | hx
  · have := h ⟨x, hx, hw⟩
    omega
  · rw [List.mem_singleton.mp hx, hb] at hw
    cases hw

/-! ## What the threads carry -/

variable {β : Type} {f : α → List β}

theorem flatMap_set_same (ha : l[i]? = some a) (h : f b = f a) :
    (l.set i b).flatMap f = l.flatMap f := by
  obtain ⟨hlt, rfl⟩ := List.getElem?_eq_some_iff.mp ha
  rw [List.flatMap_def, List.map_set, h, ← List.getElem_map f (h := by simpa using hlt),
    List.set_getElem_self, ← List.flatMap_def]

/-- One thread hands over `f a` and takes `f b`. -/
theorem flatMap_set_perm (f : α → List β) (ha : l[i]? = some a) :
    f a ++ (l.set i b).flatMap f ~ f b ++ l.flatMap f := by
  induction l generalizing i with
  | nil => simp at ha
  | cons x l ih =>
    cases i with
    | zero =>
      obtain rfl : x = a := by simpa using ha
      simp only [List.set_cons_zero, List.flatMap_cons]
      exact List.perm_append_comm_assoc ..
    | succ i =>
      simp only [List.set_cons_succ, List.flatMap_cons]
      have ih := ih (by simpa using ha)
      calc f a ++ (f x ++ (l.set i b).flatMap f)
        _ ~ f x ++ (f a ++ (l.set i b).flatMap f) := List.perm_append_comm_assoc ..
        _ ~ f x ++ (f b ++ l.flatMap f) := ih.append_left _
        _ ~ f b ++ (f x ++ l.flatMap f) := List.perm_append_comm_assoc ..

theorem flatMap_signal {choice : Option Nat} (hf : ∀ a, c.waits a = true → f (c.wake a) = f a)
    (h : c.signal l choice = some l') : l'.flatMap f = l.flatMap f := by
  rcases signal_cases h with ⟨i, a, ha, hw, rfl⟩ | ⟨-, rfl⟩
  · exact flatMap_set_same ha (hf a hw)
  · rfl

theorem flatMap_broadcast (hf : ∀ a, c.waits a = true → f (c.wake a) = f a) :
    (c.broadcast l).flatMap f = l.flatMap f := by
  rw [broadcast, List.flatMap_map]
  congr 1
  funext a
  split
  · rename_i hw
    exact hf a hw
  · rfl

end CondVar
