import MultiThreadLog.Lib.Numeral

/-!
# `convert` and `convertHex`: integers into the buffer

`LogStream.cc` writes a number in place: the digits least significant first, then the sign, then
the terminator, and reverses the digits and sign afterwards. A negative value is never negated:
its remainders are negative and index the mirrored table `digits` to the left of `zero`. What is
left behind is the canonical numeral (`convert_renders`).

All integer types share the template; division and remainder truncate and stay in the type's
range, so `Int.tdiv` and `Int.tmod` compute them for every `T`.
-/

namespace MultiThreadLog

open Bytes Numeral

def digits : List UInt8 := ascii "9876543210123456789"

/-- `zero[index]`, where `zero` points at the `0` in the middle of `digits`. -/
def zeroAt (index : Int) : UInt8 := digits.getD (9 + index).toNat 0

def digitsHex : List UInt8 := ascii "0123456789ABCDEF"

/-- The `do ... while (i != 0)` loop of `convert`. -/
def convertLoop (i : Int) : List UInt8 :=
  zeroAt (i.tmod 10) :: if i.tdiv 10 ≠ 0 then convertLoop (i.tdiv 10) else []
termination_by i.natAbs
decreasing_by
  rename_i h
  rw [Int.natAbs_tdiv]
  have : i.natAbs ≠ 0 := by
    rintro e
    exact h (by rw [Int.natAbs_eq_zero.mp e]; rfl)
  exact Nat.div_lt_self (by omega) (by decide)

/-- Before the reversal. -/
def convertChars (value : Int) : List UInt8 :=
  convertLoop value ++ if value < 0 then ascii "-" else []

/-- The stores with `buf` at offset `o`, and the returned length. -/
def convert (o : Nat) (value : Int) : List (Nat × UInt8) × Nat :=
  let cs := convertChars value
  (placed o (cs ++ [0]) ++ placed o cs.reverse, cs.length)

def convertHexLoop (i : Nat) : List UInt8 :=
  digitsHex.getD (i % 16) 0 :: if i / 16 ≠ 0 then convertHexLoop (i / 16) else []
termination_by i
decreasing_by exact Nat.div_lt_self (by omega) (by decide)

def convertHex (o : Nat) (value : Nat) : List (Nat × UInt8) × Nat :=
  let cs := convertHexLoop value
  (placed o (cs ++ [0]) ++ placed o cs.reverse, cs.length)

/-! ## The text is the numeral -/

theorem zeroAt_eq {i : Int} (h : i.natAbs < 10) : zeroAt i = digitByte i.natAbs := by
  have key : ∀ k : Fin 10,
      zeroAt k.val = digitByte k.val ∧ zeroAt (-(k.val : Int)) = digitByte k.val := by
    decide
  obtain ⟨h1, h2⟩ := key ⟨i.natAbs, h⟩
  rcases Int.natAbs_eq i with e | e
  · rw [← h1, ← e]
  · rw [← h2, ← e]

theorem digitsHex_getD {d : Nat} (h : d < 16) :
    digitsHex.getD d 0 = (Nat.digitChar d).toUpper.toNat.toUInt8 := by
  have key : ∀ k : Fin 16,
      digitsHex.getD k.val 0 = (Nat.digitChar k.val).toUpper.toNat.toUInt8 := by
    decide
  exact key ⟨d, h⟩

theorem convertLoop_reverse (i : Int) : (convertLoop i).reverse = decimalNat i.natAbs := by
  fun_induction convertLoop i with
  | case1 i ih =>
    have hm : (i.tmod 10).natAbs = i.natAbs % 10 := by rw [Int.natAbs_tmod]; rfl
    have hd : (i.tdiv 10).natAbs = i.natAbs / 10 := by rw [Int.natAbs_tdiv]; rfl
    rw [List.reverse_cons, zeroAt_eq (by omega), hm]
    by_cases h : i.tdiv 10 = 0
    · rw [if_neg (by simpa using h), decimalNat_of_lt (by rw [h] at hd; simp at hd; omega),
        Nat.mod_eq_of_lt (by rw [h] at hd; simp at hd; omega)]
      rfl
    · have : i.natAbs / 10 ≠ 0 := by rw [← hd]; exact Int.natAbs_ne_zero.mpr h
      rw [if_pos h, ih h, hd, ← decimalNat_of_ge (by omega)]

theorem convertChars_reverse (v : Int) : (convertChars v).reverse = decimal v := by
  unfold convertChars decimal
  rw [List.reverse_append, convertLoop_reverse]
  split <;> rfl

theorem convertHexLoop_reverse (n : Nat) : (convertHexLoop n).reverse = hexUpper n := by
  fun_induction convertHexLoop n with
  | case1 n ih =>
    rw [List.reverse_cons, digitsHex_getD (Nat.mod_lt n (by omega))]
    by_cases h : n / 16 = 0
    · rw [if_neg (by simpa using h), hexUpper, Nat.toDigits_of_lt_base (by omega),
        Nat.mod_eq_of_lt (by omega)]
      rfl
    · rw [if_pos h, ih h, hexUpper, hexUpper,
        Nat.toDigits_of_base_le (by omega) (by omega : 16 ≤ n), List.map_append]
      rfl

/-- **`convert` leaves the numeral behind** and returns its length. -/
theorem convert_renders (o : Nat) (v : Int) :
    Renders o (convert o v).1 (decimal v) ∧ (convert o v).2 = (decimal v).length := by
  rw [← convertChars_reverse]
  exact ⟨(renders_placed o _ 0).overwrite (List.length_reverse), (List.length_reverse).symm⟩

theorem convertHex_renders (o n : Nat) :
    Renders o (convertHex o n).1 (hexUpper n) ∧ (convertHex o n).2 = (hexUpper n).length := by
  rw [← convertHexLoop_reverse]
  exact ⟨(renders_placed o _ 0).overwrite (List.length_reverse), (List.length_reverse).symm⟩

end MultiThreadLog
