import Mathlib.Data.Int.DivMod

/-!
# Arithmetic of the type `int`

Values are integers; an operation whose exact result does not fit into 32 bits is undefined and
has no result. Division truncates. A conversion from a wider type keeps the low 32 bits.
-/

namespace CInt

/-- The value, if `int` has it. -/
def ofInt (x : Int) : Option Int := if -2147483648 ≤ x ∧ x ≤ 2147483647 then some x else none

def add (x y : Int) : Option Int := ofInt (x + y)

def sub (x y : Int) : Option Int := ofInt (x - y)

def mul (x y : Int) : Option Int := ofInt (x * y)

def div (x y : Int) : Option Int := if y = 0 then none else ofInt (x.tdiv y)

/-- Undefined where the quotient is. -/
def mod (x y : Int) : Option Int := (div x y).map fun _ => x.tmod y

/-- The conversion from a wider type. -/
def ofLong (x : Int) : Int := x.bmod 4294967296

variable {x y : Int}

theorem ofInt_eq (h : -2147483648 ≤ x) (h' : x ≤ 2147483647) : ofInt x = some x := if_pos ⟨h, h'⟩

theorem add_eq (h : -2147483648 ≤ x + y) (h' : x + y ≤ 2147483647) : add x y = some (x + y) :=
  ofInt_eq h h'

theorem sub_eq (h : -2147483648 ≤ x - y) (h' : x - y ≤ 2147483647) : sub x y = some (x - y) :=
  ofInt_eq h h'

theorem mul_eq (h : -2147483648 ≤ x * y) (h' : x * y ≤ 2147483647) : mul x y = some (x * y) :=
  ofInt_eq h h'

/-- Where nothing is negative the division is the exact one. -/
theorem div_eq (h : 0 ≤ x) (h' : x ≤ 2147483647) (hy : 0 < y) : div x y = some (x / y) := by
  have hle : x / y ≤ x := Int.ediv_le_self y h
  have hge : 0 ≤ x / y := Int.ediv_nonneg h (Int.le_of_lt hy)
  rw [div, if_neg (by omega), Int.tdiv_eq_ediv_of_nonneg h, ofInt_eq (by omega) (by omega)]

/-- The remainder, likewise. -/
theorem mod_eq (h : 0 ≤ x) (h' : x ≤ 2147483647) (hy : 0 < y) : mod x y = some (x % y) := by
  rw [mod, div_eq h h' hy, Option.map_some, Int.tmod_eq_emod_of_nonneg h]

theorem ofLong_eq (h : -2147483648 ≤ x) (h' : x ≤ 2147483647) : ofLong x = x := by
  rw [ofLong, Int.bmod_eq_of_le (by omega) (by omega)]

/-! ## The operations in front of a continuation -/

variable {α : Type} {f : Int → Option α}

theorem add_bind (h : -2147483648 ≤ x + y) (h' : x + y ≤ 2147483647) :
    (add x y >>= f) = f (x + y) := by
  rw [add_eq h h']
  rfl

theorem sub_bind (h : -2147483648 ≤ x - y) (h' : x - y ≤ 2147483647) :
    (sub x y >>= f) = f (x - y) := by
  rw [sub_eq h h']
  rfl

theorem mul_bind (h : -2147483648 ≤ x * y) (h' : x * y ≤ 2147483647) :
    (mul x y >>= f) = f (x * y) := by
  rw [mul_eq h h']
  rfl

theorem div_bind (h : 0 ≤ x) (h' : x ≤ 2147483647) (hy : 0 < y) :
    (div x y >>= f) = f (x / y) := by
  rw [div_eq h h' hy]
  rfl

end CInt
