import Mathlib.Order.Basic

/-!
# Bisection

`bisect less first len` is the position at which a bisection of the `len` positions from `first` on
ends, `less i` saying that the element at `i` is before the value looked for. Whatever the
elements are, ordered or not, the element in front of that position is before the value and the
one at it is not (`less_pred_bisect`, `not_less_bisect`).
-/

namespace Bisection

/-- The loop with the positions `[first, first + len)` left. -/
def bisect (less : Nat → Bool) (first len : Nat) : Nat :=
  if len = 0 then first
  else
    let half := len / 2
    if less (first + half) then bisect less (first + half + 1) (len - half - 1)
    else bisect less first half
termination_by len
decreasing_by all_goals omega

variable {less : Nat → Bool} {first len : Nat}

theorem le_bisect (less : Nat → Bool) (first len : Nat) : first ≤ bisect less first len := by
  fun_induction bisect less first len <;> omega

theorem bisect_le (less : Nat → Bool) (first len : Nat) :
    bisect less first len ≤ first + len := by
  fun_induction bisect less first len <;> omega

/-- The element in front of the position found, unless it is in front of the range. -/
theorem less_pred_bisect (h : first < bisect less first len) :
    less (bisect less first len - 1) = true := by
  fun_induction bisect less first len with
  | case1 first => exact absurd h (Nat.lt_irrefl _)
  | case2 first len _ half hless ih =>
    -- either the loop stops right behind the middle, or it goes on from there
    rcases Nat.eq_or_lt_of_le (le_bisect less (first + half + 1) (len - half - 1)) with heq | hlt
    · rw [← heq, Nat.add_sub_cancel]
      exact hless
    · exact ih hlt
  | case3 first len _ half _ ih => exact ih h

/-- The element at the position found, unless it is behind the range. -/
theorem not_less_bisect (h : bisect less first len < first + len) :
    less (bisect less first len) = false := by
  fun_induction bisect less first len with
  | case1 first => exact absurd h (Nat.lt_irrefl _)
  | case2 first len _ half _ ih => exact ih (by omega)
  | case3 first len _ half hless ih =>
    rcases Nat.eq_or_lt_of_le (bisect_le less first half) with heq | hlt
    · rw [heq]
      exact eq_false_of_ne_true hless
    · exact ih hlt

end Bisection
