import Mathlib.Data.List.Induction

/-!
# Runs of a labelled step function

`step s l = some t`: in state `s` the step labelled `l` is possible and leads to `t`. `exec`
performs a list of labels. `exec_inv` is the invariant rule: a predicate of the labels performed
so far and the state reached that holds at the start and is kept by every step holds after every
run. `exec_sim` is the rule for two runs in lock step.
-/

namespace Lts

section Exec

variable {σ lab : Type} (step : σ → lab → Option σ)

/-- The state after the steps `ls`, if all of them are possible. -/
def exec : σ → List lab → Option σ
  | s, [] => some s
  | s, l :: ls => (step s l).bind fun t => exec t ls

@[simp] theorem exec_nil (s : σ) : exec step s [] = some s := rfl

variable {step}

theorem exec_cons {s t : σ} {l : lab} {ls : List lab} (h : exec step s (l :: ls) = some t) :
    ∃ u, step s l = some u ∧ exec step u ls = some t :=
  Option.bind_eq_some_iff.mp h

theorem exec_append (s : σ) (l1 l2 : List lab) :
    exec step s (l1 ++ l2) = (exec step s l1).bind fun t => exec step t l2 := by
  induction l1 generalizing s with
  | nil => rfl
  | cons l l1 ih =>
    simp only [List.cons_append, exec]
    cases step s l with
    | none => rfl
    | some u => exact ih u

theorem exec_append_some {s t : σ} {l1 l2 : List lab} (h : exec step s (l1 ++ l2) = some t) :
    ∃ u, exec step s l1 = some u ∧ exec step u l2 = some t := by
  rw [exec_append] at h
  exact Option.bind_eq_some_iff.mp h

theorem exec_snoc {s t u : σ} {ls : List lab} {l : lab} (h : exec step s ls = some t)
    (h2 : step t l = some u) : exec step s (ls ++ [l]) = some u := by
  rw [exec_append, h, Option.bind_some, exec, h2]
  rfl

/-- **The invariant rule.** -/
theorem exec_inv {s0 : σ} {P : List lab → σ → Prop} (h0 : P [] s0)
    (hstep : ∀ ls s l t, exec step s0 ls = some s → P ls s → step s l = some t → P (ls ++ [l]) t)
    {ls : List lab} {s : σ} (h : exec step s0 ls = some s) : P ls s := by
  induction ls using List.reverseRecOn generalizing s with
  | nil => cases h; exact h0
  | append_singleton ls l ih =>
    obtain ⟨t, ht, hs⟩ := exec_append_some h
    obtain ⟨u, hu, e⟩ := exec_cons hs
    cases e
    exact hstep ls t l _ ht (ih ht) hu

/-- The invariant rule for a predicate of the state alone, from any state that satisfies it. -/
theorem exec_keeps {P : σ → Prop} (hstep : ∀ s l t, P s → step s l = some t → P t)
    {s t : σ} {ls : List lab} (h0 : P s) (h : exec step s ls = some t) : P t :=
  exec_inv (P := fun _ u => P u) h0 (fun _ _ _ _ _ hp hs => hstep _ _ _ hp hs) h

end Exec

/-- Each step of `ls` meets `P`, which may look at the steps before it. -/
def Along {lab : Type} (P : List lab → lab → Prop) (ls : List lab) : Prop :=
  ∀ before l after, ls = before ++ l :: after → P before l

theorem along_nil {lab : Type} (P : List lab → lab → Prop) : Along P [] :=
  fun before l after h => by simp at h

theorem along_snoc {lab : Type} {P : List lab → lab → Prop} {ls : List lab} {l : lab} :
    Along P (ls ++ [l]) ↔ Along P ls ∧ P ls l := by
  refine ⟨fun h => ⟨fun before k after e => ?_, h ls l [] rfl⟩, fun ⟨h, hl⟩ before k after e => ?_⟩
  · exact h before k (after ++ [l]) (by rw [e, List.append_assoc]; rfl)
  · rcases List.eq_nil_or_concat after with rfl | ⟨after, x, rfl⟩
    · obtain ⟨e1, e2⟩ := List.append_inj' e rfl
      rw [← e1, ← (List.cons.inj e2).1]
      exact hl
    · rw [List.concat_eq_append, ← List.cons_append, ← List.append_assoc] at e
      exact h before k after (List.append_inj' e rfl).1

/-- **Lock step.** Two runs whose labels are related one by one, by a relation that the steps
keep, end in related states. -/
theorem exec_sim {σ σ' lab lab' : Type} {step : σ → lab → Option σ} {step' : σ' → lab' → Option σ'}
    {R : σ → σ' → Prop} {Q : lab → lab' → Prop}
    (hstep : ∀ s s' l l' t t', R s s' → Q l l' → step s l = some t → step' s' l' = some t' → R t t')
    {s : σ} {s' : σ'} {ls : List lab} {ls' : List lab'} (hR : R s s') (hQ : List.Forall₂ Q ls ls')
    {t : σ} {t' : σ'} (h : exec step s ls = some t) (h' : exec step' s' ls' = some t') :
    R t t' := by
  induction hQ generalizing s s' with
  | nil => cases h; cases h'; exact hR
  | cons hl _ ih =>
    obtain ⟨u, hu, h⟩ := exec_cons h
    obtain ⟨u', hu', h'⟩ := exec_cons h'
    exact ih (hstep _ _ _ _ _ _ hR hl hu hu') h h'

end Lts
