import Mathlib.Data.List.Count
import MultiThreadLog.Lib.Runs

/-!
# Countdowns

A countdown of a labelled step function is a number read off the state that some of the steps
lower and that the others, whoever takes them, do not raise, until a step comes that ends it. It
bounds how many of the lowering steps a run has (`countP_le`), or how many it has before the step
that ends it (`exists_before`): a bound for every order of the steps, with no assumption of
fairness.
-/

namespace Lts

variable {σ lab : Type} {step : σ → lab → Option σ}

/-- Until a step satisfies `q`, the invariant `I` stays, the steps that satisfy `p` lower `m` and
the others do not raise it. -/
structure Countdown (step : σ → lab → Option σ) (I : σ → Prop) (p : lab → Bool)
    (q : σ → lab → Prop) (m : σ → Nat) : Prop where
  keeps : ∀ {s l t}, I s → step s l = some t → ¬ q s l → I t
  lowers : ∀ {s l t}, I s → step s l = some t → ¬ q s l → p l = true → m t < m s
  raisesNot : ∀ {s l t}, I s → step s l = some t → ¬ q s l → p l = false → m t ≤ m s

variable {I : σ → Prop} {p : lab → Bool} {q : σ → lab → Prop} {m : σ → Nat} {s t : σ}
  {ls : List lab}

/-- A run in which no step satisfies `q`. -/
theorem Countdown.countP_le_of (c : Countdown step I p q m) (hI : I s)
    (h : exec step s ls = some t)
    (hq : ∀ before l after u, ls = before ++ l :: after → exec step s before = some u → ¬ q u l) :
    I t ∧ ls.countP p + m t ≤ m s := by
  induction ls generalizing s with
  | nil =>
    cases h
    exact ⟨hI, by simp⟩
  | cons l ls ih =>
    obtain ⟨u, hu, h⟩ := exec_cons h
    have hl : ¬ q s l := hq [] l ls s rfl rfl
    obtain ⟨hIt, hrest⟩ := ih (c.keeps hI hu hl) h fun before x after v e hv =>
      hq (l :: before) x after v (by rw [e]; rfl) (by rw [exec, hu, Option.bind_some, hv])
    refine ⟨hIt, ?_⟩
    cases hp : p l with
    | true =>
      have hlt := c.lowers hI hu hl hp
      rw [List.countP_cons_of_pos hp]
      omega
    | false =>
      have hle := c.raisesNot hI hu hl hp
      rw [List.countP_cons_of_neg (by simp [hp])]
      omega

/-- **The bound** of a countdown that nothing ends. -/
theorem Countdown.countP_le (c : Countdown step I p (fun _ _ => False) m) (hI : I s)
    (h : exec step s ls = some t) : ls.countP p + m t ≤ m s :=
  (c.countP_le_of hI h fun _ _ _ _ _ _ => id).2

/-- **The step that must come**: a run with more steps that satisfy `p` than the countdown shows has
one that satisfies `q`, and not later than the countdown says. -/
theorem Countdown.exists_before (c : Countdown step I p q m) (hI : I s)
    (h : exec step s ls = some t) (hcount : m s < ls.countP p) :
    ∃ before l after u, ls = before ++ l :: after ∧ exec step s before = some u ∧ q u l ∧
      before.countP p ≤ m s := by
  induction ls generalizing s with
  | nil => simp at hcount
  | cons l ls ih =>
    by_cases hl : q s l
    · exact ⟨[], l, ls, s, rfl, rfl, hl, Nat.zero_le _⟩
    obtain ⟨u, hu, h⟩ := exec_cons h
    have later : m u < ls.countP p ∧ ∀ before : List lab, before.countP p ≤ m u →
        (l :: before).countP p ≤ m s := by
      cases hp : p l with
      | true =>
        have hlt := c.lowers hI hu hl hp
        rw [List.countP_cons_of_pos hp] at hcount
        exact ⟨by omega, fun before hb => by rw [List.countP_cons_of_pos hp]; omega⟩
      | false =>
        have hle := c.raisesNot hI hu hl hp
        rw [List.countP_cons_of_neg (by simp [hp])] at hcount
        exact ⟨by omega, fun before hb => by rw [List.countP_cons_of_neg (by simp [hp])]; omega⟩
    obtain ⟨before, x, after, v, e, hb, hx, hle⟩ := ih (c.keeps hI hu hl) h later.1
    refine ⟨l :: before, x, after, v, by rw [e]; rfl, ?_, hx, later.2 before hle⟩
    rw [exec, hu, Option.bind_some, hb]

end Lts
