import Mathlib.Tactic.Positivity
import Mathlib.Tactic.Zify
import MultiThreadLog.Lib.Bytes

/-!
# Numerals as text

`decimal v` is the canonical base-10 numeral of an integer as ASCII bytes, `hexUpper n` the
upper-case hexadecimal one of a natural number, and `padLeft` fills a numeral up to a width, as
the `printf` conversions `%5d` and `%06d` do. `valueOf` reads decimal digits back: it undoes
`decimalNat` also behind leading zeros, so zero-padded fields determine their number. A numeral is
`Canonical` when it reads back as its number and has no leading zero, which both are.
-/

namespace Numeral

open Bytes

/-- The ASCII byte of the digit `d < 10`. -/
def digitByte (d : Nat) : UInt8 := UInt8.ofNat (48 + d)

/-- The base-10 numeral of a natural number. -/
def decimalNat (n : Nat) : List UInt8 := (Nat.toDigits 10 n).map fun c => c.toNat.toUInt8

/-- The base-10 numeral of an integer. -/
def decimal (v : Int) : List UInt8 :=
  if v < 0 then 45 :: decimalNat v.natAbs else decimalNat v.natAbs

/-- The upper-case hexadecimal numeral. -/
def hexUpper (n : Nat) : List UInt8 := (Nat.toDigits 16 n).map fun c => c.toUpper.toNat.toUInt8

/-- `l` filled on the left with `c` up to the width `w`. -/
def padLeft (w : Nat) (c : UInt8) (l : List UInt8) : List UInt8 :=
  List.replicate (w - l.length) c ++ l

/-- `%wd`: the numeral behind blanks. -/
def blankField (w : Nat) (v : Int) : List UInt8 := padLeft w 32 (decimal v)

/-- `%0wd`: the numeral behind zeros, the sign in front of them. -/
def zeroField (w : Nat) (v : Int) : List UInt8 :=
  if v < 0 then 45 :: padLeft (w - 1) 48 (decimalNat v.natAbs)
  else padLeft w 48 (decimalNat v.natAbs)

/-- The number a list of decimal digits denotes. -/
def valueOf (l : List UInt8) : Nat := l.foldl (fun a b => 10 * a + (b.toNat - 48)) 0

theorem decimalNat_of_lt {n : Nat} (h : n < 10) : decimalNat n = [digitByte n] := by
  rw [decimalNat, Nat.toDigits_of_lt_base h]
  decide +revert

theorem digitByte_toNat {d : Nat} (h : d < 10) : (digitByte d).toNat = 48 + d := by
  rw [digitByte, UInt8.toNat_ofNat']
  omega

/-- The last digit and the rest. -/
theorem decimalNat_of_ge {n : Nat} (h : 10 ≤ n) :
    decimalNat n = decimalNat (n / 10) ++ [digitByte (n % 10)] := by
  have hd := decimalNat_of_lt (Nat.mod_lt n (show 0 < 10 by omega))
  rw [decimalNat, Nat.toDigits_of_lt_base (Nat.mod_lt n (by omega))] at hd
  rw [decimalNat, Nat.toDigits_of_base_le (by omega) h, List.map_append, hd, ← decimalNat]

theorem decimalNat_length_le {n k : Nat} (hk : 0 < k) (h : n < 10 ^ k) :
    (decimalNat n).length ≤ k := by
  rw [decimalNat, List.length_map]
  exact (Nat.length_toDigits_le_iff (by omega) hk).mpr h

/-- Every byte of a numeral is a digit. -/
theorem digit_of_mem {n : Nat} {b : UInt8} (h : b ∈ decimalNat n) :
    48 ≤ b.toNat ∧ b.toNat < 58 := by
  induction n using Nat.strongRecOn with
  | ind n ih =>
    rcases Nat.lt_or_ge n 10 with hn | hn
    · rw [decimalNat_of_lt hn, List.mem_singleton] at h
      have := digitByte_toNat hn
      subst h; omega
    · rw [decimalNat_of_ge hn, List.mem_append, List.mem_singleton] at h
      rcases h with h | rfl
      · exact ih (n / 10) (by omega) h
      · have := digitByte_toNat (Nat.mod_lt n (show 0 < 10 by omega))
        omega

theorem ne_zero_of_mem_decimalNat {n : Nat} {b : UInt8} (h : b ∈ decimalNat n) : b ≠ 0 := by
  rintro rfl
  exact absurd (digit_of_mem h).1 (by decide)

theorem ne_zero_of_mem_decimal {v : Int} {b : UInt8} (h : b ∈ decimal v) : b ≠ 0 := by
  unfold decimal at h
  split at h
  · rcases List.mem_cons.mp h with rfl | h
    · decide
    · exact ne_zero_of_mem_decimalNat h
  · exact ne_zero_of_mem_decimalNat h

/-- A numeral of a value of absolute value below `10 ^ k` has at most `k + 1` bytes. -/
theorem decimal_length_le {v : Int} {k : Nat} (hk : 0 < k) (h : v.natAbs < 10 ^ k) :
    (decimal v).length ≤ k + 1 := by
  have := decimalNat_length_le hk h
  unfold decimal
  split
  · rw [List.length_cons]; omega
  · omega

theorem hexUpper_length_le {n k : Nat} (hk : 0 < k) (h : n < 16 ^ k) : (hexUpper n).length ≤ k := by
  rw [hexUpper, List.length_map]
  exact (Nat.length_toDigits_le_iff (by omega) hk).mpr h

/-! ## Reading back -/

theorem valueOf_append (l : List UInt8) (b : UInt8) :
    valueOf (l ++ [b]) = 10 * valueOf l + (b.toNat - 48) := by
  simp [valueOf]

theorem valueOf_decimalNat (n : Nat) : valueOf (decimalNat n) = n := by
  induction n using Nat.strongRecOn with
  | ind n ih =>
    rcases Nat.lt_or_ge n 10 with h | h
    · rw [decimalNat_of_lt h]
      have := digitByte_toNat h
      simp only [valueOf, List.foldl_cons, List.foldl_nil]
      omega
    · have := digitByte_toNat (Nat.mod_lt n (show 0 < 10 by omega))
      rw [decimalNat_of_ge h, valueOf_append, ih (n / 10) (by omega)]
      omega

theorem valueOf_zeros (k : Nat) (l : List UInt8) :
    valueOf (List.replicate k 48 ++ l) = valueOf l := by
  induction k with
  | zero => rfl
  | succ k ih =>
    rw [← ih]
    simp [valueOf, List.replicate_succ]

/-- Leading zeros do not change the number. -/
theorem valueOf_padLeft (w n : Nat) : valueOf (padLeft w 48 (decimalNat n)) = n := by
  rw [padLeft, valueOf_zeros, valueOf_decimalNat]

theorem padLeft_length {w : Nat} {c : UInt8} {l : List UInt8} (h : l.length ≤ w) :
    (padLeft w c l).length = w := by
  simp [padLeft]; omega

theorem decimal_of_nonneg {v : Int} (h : 0 ≤ v) : decimal v = decimalNat v.natAbs :=
  if_neg (by omega)

theorem zeroField_of_nonneg {w : Nat} {v : Int} (h : 0 ≤ v) :
    zeroField w v = padLeft w 48 (decimalNat v.natAbs) :=
  if_neg (by omega)

/-- A zero-padded field of a number that fits has exactly the width. -/
theorem zeroField_length {w : Nat} {v : Int} (hw : 0 < w) (h0 : 0 ≤ v) (h : v < 10 ^ w) :
    (zeroField w v).length = w := by
  rw [zeroField_of_nonneg h0]
  exact padLeft_length (decimalNat_length_le hw (by zify; rwa [abs_of_nonneg h0]))

/-- A zero-padded field determines the number. -/
theorem zeroField_inj {w : Nat} {v v' : Int} (h0 : 0 ≤ v) (h0' : 0 ≤ v')
    (h : zeroField w v = zeroField w v') : v = v' := by
  rw [zeroField_of_nonneg h0, zeroField_of_nonneg h0'] at h
  have := congrArg valueOf h
  rw [valueOf_padLeft, valueOf_padLeft] at this
  omega

theorem decimal_inj {v v' : Int} (h0 : 0 ≤ v) (h0' : 0 ≤ v') (h : decimal v = decimal v') :
    v = v' := by
  rw [decimal_of_nonneg h0, decimal_of_nonneg h0'] at h
  have := congrArg valueOf h
  rw [valueOf_decimalNat, valueOf_decimalNat] at this
  omega

/-- A numeral of a value with exactly `k` digits. -/
theorem decimal_length {v : Int} {k : Nat} (hk : 0 < k) (h1 : 10 ^ k ≤ v) (h2 : v < 10 ^ (k + 1)) :
    (decimal v).length = k + 1 := by
  have h0 : (0 : Int) < 10 ^ k := by positivity
  rw [decimal_of_nonneg (by omega)]
  have hle : (decimalNat v.natAbs).length ≤ k + 1 :=
    decimalNat_length_le (by omega) (by zify; rwa [abs_of_nonneg (by omega)])
  have hgt : ¬ (decimalNat v.natAbs).length ≤ k := by
    rw [decimalNat, List.length_map, Nat.length_toDigits_le_iff (by omega) hk]
    zify
    rw [abs_of_nonneg (by omega)]
    omega
  omega

theorem ne_zero_of_mem_padLeft {w : Nat} {c b : UInt8} {l : List UInt8} (hc : c ≠ 0)
    (hl : ∀ x ∈ l, x ≠ 0) (h : b ∈ padLeft w c l) : b ≠ 0 := by
  rcases List.mem_append.mp h with h | h
  · rw [List.eq_of_mem_replicate h]; exact hc
  · exact hl b h

theorem ne_zero_of_mem_zeroField {w : Nat} {v : Int} {b : UInt8} (h : b ∈ zeroField w v) :
    b ≠ 0 := by
  unfold zeroField at h
  split at h
  · rcases List.mem_cons.mp h with rfl | h
    · decide
    · exact ne_zero_of_mem_padLeft (by decide) (fun _ hx => ne_zero_of_mem_decimalNat hx) h
  · exact ne_zero_of_mem_padLeft (by decide) (fun _ hx => ne_zero_of_mem_decimalNat hx) h

/-! ## Canonical numerals -/

/-- The value of a digit: `0` to `9`, then `A` to `F`. -/
def digitOf (b : UInt8) : Option Nat :=
  if 48 ≤ b ∧ b ≤ 57 then some (b.toNat - 48)
  else if 65 ≤ b ∧ b ≤ 70 then some (b.toNat - 55)
  else none

/-- The number that `acc` and the digits after it denote. -/
def readDigits (base : Nat) : Nat → List UInt8 → Option Nat
  | acc, [] => some acc
  | acc, b :: t =>
    (digitOf b).bind fun d => if d < base then readDigits base (base * acc + d) t else none

def readNat (base : Nat) (t : List UInt8) : Option Nat :=
  if t = [] then none else readDigits base 0 t

/-- A base-10 numeral with or without the sign `-`. -/
def readInt (t : List UInt8) : Option Int :=
  if t.head? = some 45 then (readNat 10 t.tail).map fun n : Nat => -(n : Int)
  else (readNat 10 t).map fun n : Nat => (n : Int)

/-- The text is a numeral of `n`, and it has no leading zero. -/
structure Canonical (base : Nat) (t : List UInt8) (n : Nat) : Prop where
  value : readNat base t = some n
  leading : t.head? = some 48 → t = [48]

theorem readDigits_append (base acc : Nat) (t u : List UInt8) :
    readDigits base acc (t ++ u) = (readDigits base acc t).bind fun n => readDigits base n u := by
  induction t generalizing acc with
  | nil => rfl
  | cons b t ih =>
    rw [List.cons_append, readDigits, readDigits]
    cases digitOf b with
    | none => rfl
    | some d =>
      simp only [Option.bind_some]
      split
      · exact ih _
      · rfl

section Digits

variable {base n : Nat} {code : Char → UInt8}

theorem readDigits_toDigits (hb : 1 < base)
    (hcode : ∀ d, d < base → digitOf (code d.digitChar) = some d) (n : Nat) :
    readDigits base 0 ((Nat.toDigits base n).map code) = some n := by
  induction n using Nat.strongRecOn with
  | ind n ih =>
    have last (acc d : Nat) (hd : d < base) :
        readDigits base acc [code d.digitChar] = some (base * acc + d) := by
      rw [readDigits, hcode d hd, Option.bind_some, if_pos hd, readDigits]
    rcases Nat.lt_or_ge n base with h | h
    · rw [Nat.toDigits_of_lt_base h, List.map_singleton, last 0 n h, Nat.mul_zero, Nat.zero_add]
    · rw [Nat.toDigits_of_base_le hb h, List.map_append, List.map_singleton, readDigits_append,
        ih (n / base) (Nat.div_lt_self (by omega) hb), Option.bind_some,
        last _ _ (Nat.mod_lt n (by omega)), Nat.div_add_mod]

/-- The first digit of a positive number is not zero. -/
theorem toDigits_head (hb : 1 < base) (hn : 0 < n) :
    ∃ d, 0 < d ∧ d < base ∧ (Nat.toDigits base n).head? = some d.digitChar := by
  induction n using Nat.strongRecOn with
  | ind n ih =>
    rcases Nat.lt_or_ge n base with h | h
    · exact ⟨n, hn, h, by rw [Nat.toDigits_of_lt_base h]; rfl⟩
    · obtain ⟨d, h0, hd, hhead⟩ := ih (n / base) (Nat.div_lt_self (by omega) hb)
        (Nat.div_pos h (by omega))
      exact ⟨d, h0, hd, by rw [Nat.toDigits_of_base_le hb h, List.head?_append, hhead]; rfl⟩

theorem canonical_toDigits (hb : 1 < base)
    (hcode : ∀ d, d < base → digitOf (code d.digitChar) = some d) (n : Nat) :
    Canonical base ((Nat.toDigits base n).map code) n := by
  refine ⟨?_, fun hzero => ?_⟩
  · have hne : (Nat.toDigits base n).map code ≠ [] := fun hnil =>
      Nat.toDigits_ne_nil (List.map_eq_nil_iff.mp hnil)
    rw [readNat, if_neg hne, readDigits_toDigits hb hcode]
  · have code_zero (d : Nat) (hd : d < base) (h : code d.digitChar = 48) : d = 0 := by
      have := hcode d hd
      rw [h] at this
      exact (Option.some_inj.mp this).symm
    rcases Nat.eq_zero_or_pos n with rfl | hn
    · rw [Nat.toDigits_of_lt_base (by omega), List.map_singleton, List.head?_cons,
        Option.some_inj] at hzero
      rw [Nat.toDigits_of_lt_base (by omega), List.map_singleton, hzero]
    · obtain ⟨d, h0, hd, hhead⟩ := toDigits_head hb hn
      rw [List.head?_map, hhead, Option.map_some, Option.some_inj] at hzero
      have := code_zero d hd hzero
      omega

end Digits

theorem canonical_decimalNat (n : Nat) : Canonical 10 (decimalNat n) n :=
  canonical_toDigits (by decide) (by decide) n

theorem canonical_hexUpper (n : Nat) : Canonical 16 (hexUpper n) n :=
  canonical_toDigits (by decide) (by decide) n

theorem readInt_decimal (v : Int) : readInt (decimal v) = some v := by
  have hread := (canonical_decimalNat v.natAbs).value
  unfold decimal readInt
  split
  · rw [List.head?_cons, if_pos rfl, List.tail_cons, hread, Option.map_some, Option.some_inj]
    omega
  · have hsign : (decimalNat v.natAbs).head? ≠ some 45 := fun h =>
      absurd (digit_of_mem (List.mem_of_head? h)).1 (by decide)
    rw [if_neg hsign, hread, Option.map_some, Option.some_inj]
    omega

end Numeral
