import MultiThreadLog.LogStream.Insert

/-!
# Comparing `StringPiece`s

The comparison operators (`StringPiece.h`) come from one macro: `memcmp` over the common length,
then the lengths. They are the lexicographic order of unsigned bytes, a proper prefix first
(`lt_lexicographic`). `compare` breaks ties on its own and has no case for equal lengths, so it
agrees with the operators on different strings only (`threeWay_iff`).
-/

namespace MultiThreadLog

open Bytes

/-- `memcmp`: the difference of the first two bytes that differ, as unsigned numbers. -/
def memcmp : List UInt8 → List UInt8 → Nat → Int
  | b :: p, c :: q, n + 1 => if b = c then memcmp p q n else (b.toNat : Int) - c.toNat
  | _, _, _ => 0

namespace StringPiece

/-- `operator==`. -/
def eq (a s : StringPiece) : Bool := a.length = s.length && memcmp a.ptr s.ptr a.length = 0

/-- `operator!=`. -/
def ne (a s : StringPiece) : Bool := !a.eq s

/-- `STRINGPIECE_BINARY_PREDICATE(cmp, auxcmp)`. -/
def binaryPredicate (cmp auxcmp : Int → Int → Bool) (a x : StringPiece) : Bool :=
  let r := memcmp a.ptr x.ptr (if a.length < x.length then a.length else x.length)
  auxcmp r 0 || (r = 0 && cmp a.length x.length)

def lt : StringPiece → StringPiece → Bool := binaryPredicate (· < ·) (· < ·)

def le : StringPiece → StringPiece → Bool := binaryPredicate (· ≤ ·) (· < ·)

def ge : StringPiece → StringPiece → Bool := binaryPredicate (· ≥ ·) (· > ·)

def gt : StringPiece → StringPiece → Bool := binaryPredicate (· > ·) (· > ·)

def compare (a s : StringPiece) : Int :=
  let r := memcmp a.ptr s.ptr (if a.length < s.length then a.length else s.length)
  if r = 0 then if a.length < s.length then -1 else 1 else r

/-- The bytes of the piece. -/
def bytes (a : StringPiece) : List UInt8 := a.ptr.take a.length

/-- The memory holds all bytes of the piece. -/
def Valid (a : StringPiece) : Prop := a.length ≤ a.ptr.length

instance (a : StringPiece) : Decidable a.Valid := inferInstanceAs (Decidable (_ ≤ _))

end StringPiece

/-! ## `memcmp` -/

section Memcmp

variable {p q : List UInt8} {n : Nat}

@[simp] theorem memcmp_zero (p q : List UInt8) : memcmp p q 0 = 0 := by
  cases p <;> cases q <;> rfl

@[simp] theorem memcmp_nil_left (q : List UInt8) (n : Nat) : memcmp [] q n = 0 := by
  cases q <;> cases n <;> rfl

@[simp] theorem memcmp_nil_right (p : List UInt8) (n : Nat) : memcmp p [] n = 0 := by
  cases p <;> cases n <;> rfl

theorem memcmp_neg (p q : List UInt8) (n : Nat) : memcmp q p n = -memcmp p q n := by
  fun_induction memcmp p q n with
  | case1 p c q n ih => rw [memcmp, if_pos rfl, ih]
  | case2 b p c q n hne =>
    rw [memcmp, if_neg (Ne.symm hne)]
    omega
  | case3 p q n h =>
    rcases p with _ | ⟨b, p⟩ <;> rcases q with _ | ⟨c, q⟩ <;> rcases n with _ | n <;> simp
    exact (h b p c q n rfl rfl rfl).elim

/-- Only the first `n` bytes count. -/
theorem memcmp_take {k l : Nat} (hk : n ≤ k) (hl : n ≤ l) :
    memcmp (p.take k) (q.take l) n = memcmp p q n := by
  induction n generalizing p q k l with
  | zero => simp
  | succ n ih =>
    obtain ⟨k, rfl⟩ : ∃ k', k = k' + 1 := ⟨k - 1, by omega⟩
    obtain ⟨l, rfl⟩ : ∃ l', l = l' + 1 := ⟨l - 1, by omega⟩
    rcases p with _ | ⟨b, p⟩
    · simp
    rcases q with _ | ⟨c, q⟩
    · simp
    rw [List.take_succ_cons, List.take_succ_cons, memcmp, memcmp, ih (by omega) (by omega)]

/-- **`memcmp` and the lengths give the lexicographic order**, a proper prefix first. -/
theorem memcmp_lt_iff (a b : List UInt8) :
    memcmp a b (min a.length b.length) < 0 ∨
      memcmp a b (min a.length b.length) = 0 ∧ a.length < b.length ↔ a < b := by
  induction a generalizing b with
  | nil => cases b <;> simp
  | cons x a ih =>
    rcases b with _ | ⟨y, b⟩
    · simp
    rw [List.cons_lt_cons_iff, ← ih b, List.length_cons, List.length_cons, Nat.add_min_add_right,
      memcmp, UInt8.lt_iff_toNat_lt]
    by_cases h : x = y
    · simp [h]
    · have hne : x.toNat ≠ y.toNat := fun e => h (UInt8.toNat_inj.mp e)
      simp only [h, if_false, false_and, or_false]
      omega

theorem memcmp_eq_iff (a b : List UInt8) :
    memcmp a b (min a.length b.length) = 0 ∧ a.length = b.length ↔ a = b := by
  induction a generalizing b with
  | nil => cases b <;> simp
  | cons x a ih =>
    rcases b with _ | ⟨y, b⟩
    · simp
    rw [List.cons.injEq, ← ih b, List.length_cons, List.length_cons, Nat.add_min_add_right, memcmp]
    by_cases h : x = y
    · simp [h]
    · have hne : x.toNat ≠ y.toNat := fun e => h (UInt8.toNat_inj.mp e)
      simp only [h, if_false, false_and, iff_false, not_and]
      omega

end Memcmp

/-! ## The operators -/

namespace StringPiece

variable {a b c : StringPiece}

theorem Valid.length_bytes (h : a.Valid) : a.bytes.length = a.length :=
  List.length_take_of_le h

theorem Valid.memcmp_eq (ha : a.Valid) (hb : b.Valid) :
    memcmp a.ptr b.ptr (if a.length < b.length then a.length else b.length) =
      memcmp a.bytes b.bytes (min a.bytes.length b.bytes.length) := by
  have hmin : (if a.length < b.length then a.length else b.length) = min a.length b.length := by
    split <;> omega
  rw [ha.length_bytes, hb.length_bytes, hmin, bytes, bytes,
    memcmp_take (Nat.min_le_left _ _) (Nat.min_le_right _ _)]

theorem lt_iff (ha : a.Valid) (hb : b.Valid) : a.lt b = true ↔ a.bytes < b.bytes := by
  rw [← memcmp_lt_iff, lt, binaryPredicate, ha.memcmp_eq hb, ha.length_bytes, hb.length_bytes]
  simp

theorem gt_iff (ha : a.Valid) (hb : b.Valid) : a.gt b = true ↔ b.bytes < a.bytes := by
  rw [← memcmp_lt_iff, Nat.min_comm, memcmp_neg, gt, binaryPredicate, ha.memcmp_eq hb,
    ha.length_bytes, hb.length_bytes]
  simp

theorem eq_iff (ha : a.Valid) (hb : b.Valid) : a.eq b = true ↔ a.bytes = b.bytes := by
  rw [← memcmp_eq_iff, ← ha.memcmp_eq hb, ha.length_bytes, hb.length_bytes, eq, Bool.and_eq_true,
    decide_eq_true_eq, decide_eq_true_eq, and_comm]
  refine and_congr_left fun hlen => ?_
  rw [if_neg (by omega), hlen]

theorem ne_iff (ha : a.Valid) (hb : b.Valid) : a.ne b = true ↔ a.bytes ≠ b.bytes := by
  rw [ne, Bool.not_eq_true', ← Bool.not_eq_true, eq_iff ha hb]

/-- The lengths of strings that agree up to the shorter length decide; so of two strings one is
less, or they are equal. -/
theorem bytes_trichotomy (a b : List UInt8) : a < b ∨ a = b ∨ b < a := by
  rw [← memcmp_lt_iff a b, ← memcmp_eq_iff a b, ← memcmp_lt_iff b a, Nat.min_comm b.length,
    memcmp_neg a b]
  omega

theorem le_iff (ha : a.Valid) (hb : b.Valid) :
    a.le b = true ↔ a.bytes < b.bytes ∨ a.bytes = b.bytes := by
  rw [← memcmp_lt_iff, ← memcmp_eq_iff, le, binaryPredicate, ha.memcmp_eq hb, ha.length_bytes,
    hb.length_bytes]
  simp
  omega

theorem ge_iff (ha : a.Valid) (hb : b.Valid) :
    a.ge b = true ↔ b.bytes < a.bytes ∨ a.bytes = b.bytes := by
  rw [← memcmp_lt_iff, ← memcmp_eq_iff, Nat.min_comm b.bytes.length, memcmp_neg a.bytes, ge,
    binaryPredicate, ha.memcmp_eq hb, ha.length_bytes, hb.length_bytes]
  simp
  omega

/-- What `compare` returns: there is no case for equal strings. -/
theorem compare_cases (ha : a.Valid) (hb : b.Valid) :
    (a.bytes < b.bytes ∧ a.compare b < 0) ∨ (a.bytes = b.bytes ∧ a.compare b = 1) ∨
      (b.bytes < a.bytes ∧ 0 < a.compare b) := by
  have hlt := memcmp_lt_iff a.bytes b.bytes
  have heq := memcmp_eq_iff a.bytes b.bytes
  have hgt := memcmp_lt_iff b.bytes a.bytes
  rw [Nat.min_comm, memcmp_neg a.bytes] at hgt
  rw [← hlt, ← heq, ← hgt, compare, ha.memcmp_eq hb, ha.length_bytes, hb.length_bytes]
  split
  · split <;> omega
  · omega

/-- **The operators are the lexicographic order** of unsigned bytes, a proper prefix first. -/
theorem lt_lexicographic (a b c : StringPiece) (ha : a.Valid) (hb : b.Valid) (hc : c.Valid) :
    (a.lt b = true ↔ a.bytes < b.bytes) ∧
    a.lt a = false ∧
    (a.lt b = true → b.lt c = true → a.lt c = true) ∧
    (a.lt b = true ∨ a.eq b = true ∨ b.lt a = true) ∧
    (a.le b = true ↔ a.lt b = true ∨ a.eq b = true) ∧
    (a.gt b = true ↔ b.lt a = true) ∧
    (a.ge b = true ↔ ¬ a.lt b = true) ∧
    (a.eq b = true ↔ a.bytes = b.bytes) := by
  have hirrefl : ¬ a.lt a = true := by
    rw [lt_iff ha ha]
    exact List.lt_irrefl _
  rw [le_iff ha hb, gt_iff ha hb, ge_iff ha hb, eq_iff ha hb, lt_iff ha hb, lt_iff hb hc,
    lt_iff ha hc, lt_iff hb ha]
  refine ⟨Iff.rfl, by simpa using hirrefl, List.lt_trans, bytes_trichotomy _ _, Iff.rfl, Iff.rfl,
    ?_, Iff.rfl⟩
  constructor
  · rintro (h | h) hlt
    · exact List.lt_irrefl _ (List.lt_trans h hlt)
    · exact List.lt_irrefl _ (h ▸ hlt)
  · intro h
    rcases bytes_trichotomy a.bytes b.bytes with hlt | heq | hgt
    · exact absurd hlt h
    · exact .inr heq
    · exact .inl hgt

/-- A byte that compares as 200 and a proper prefix. -/
theorem lt_lexicographic_high :
    StringPiece.lt ⟨[97, 0, 98], 2⟩ ⟨[97, 0, 200], 3⟩ = true ∧
    StringPiece.ge ⟨[97, 0, 200], 3⟩ ⟨[97, 0, 98], 3⟩ = true ∧
    (StringPiece.lt ⟨[97, 0, 98], 2⟩ ⟨[97, 0, 200], 3⟩ = true →
      StringPiece.lt ⟨[97, 0, 200], 3⟩ ⟨[98], 1⟩ = true →
      StringPiece.lt ⟨[97, 0, 98], 2⟩ ⟨[98], 1⟩ = true) :=
  ⟨by decide, by decide,
    (lt_lexicographic ⟨[97, 0, 98], 2⟩ ⟨[97, 0, 200], 3⟩ ⟨[98], 1⟩ (by decide) (by decide)
      (by decide)).2.2.1⟩

/-! ## `compare` -/

/-- `compare` is a three-way comparison that agrees with the operators. -/
structure ThreeWay (a b c : StringPiece) : Prop where
  zero : a.compare b = 0 ↔ a.eq b = true
  neg : a.compare b < 0 ↔ a.lt b = true
  pos : 0 < a.compare b ↔ a.gt b = true
  opposite : (b.compare a).sign = -(a.compare b).sign
  trans_le : a.compare b ≤ 0 → b.compare c ≤ 0 → a.compare c ≤ 0
  trans_lt : a.compare b < 0 → b.compare c < 0 → a.compare c < 0

/-- A comparison that is not positive is the strict order. -/
theorem lt_of_compare_le (ha : a.Valid) (hb : b.Valid) (h : a.compare b ≤ 0) :
    a.bytes < b.bytes := by
  rcases compare_cases ha hb with ⟨hlt, -⟩ | ⟨-, h1⟩ | ⟨-, h1⟩
  · exact hlt
  · omega
  · omega

theorem compare_lt (ha : a.Valid) (hb : b.Valid) (h : a.bytes < b.bytes) : a.compare b < 0 := by
  rcases compare_cases ha hb with ⟨-, h1⟩ | ⟨heq, -⟩ | ⟨hgt, -⟩
  · exact h1
  · exact absurd h (heq ▸ List.lt_irrefl _)
  · exact absurd (List.lt_trans h hgt) (List.lt_irrefl _)

theorem compare_gt (ha : a.Valid) (hb : b.Valid) (h : b.bytes < a.bytes) : 0 < a.compare b := by
  rcases compare_cases ha hb with ⟨hlt, -⟩ | ⟨heq, -⟩ | ⟨-, h1⟩
  · exact absurd (List.lt_trans h hlt) (List.lt_irrefl _)
  · exact absurd h (heq ▸ List.lt_irrefl _)
  · exact h1

/-- **`compare` is a three-way comparison just of different strings**: of equal strings it says
that the first is greater. -/
theorem threeWay_iff (a b c : StringPiece) (ha : a.Valid) (hb : b.Valid) (hc : c.Valid) :
    ThreeWay a b c ↔ a.bytes ≠ b.bytes := by
  have trans : a.compare b ≤ 0 → b.compare c ≤ 0 → a.compare c < 0 := fun h h' =>
    compare_lt ha hc (List.lt_trans (lt_of_compare_le ha hb h) (lt_of_compare_le hb hc h'))
  constructor
  · intro h heq
    have hzero := h.zero.mpr ((eq_iff ha hb).mpr heq)
    rcases compare_cases ha hb with ⟨-, h1⟩ | ⟨-, h1⟩ | ⟨-, h1⟩ <;> omega
  · intro hne
    have htrans_le := fun h h' => Int.le_of_lt (trans h h')
    have htrans_lt := fun h h' => trans (Int.le_of_lt h) (Int.le_of_lt h')
    rcases bytes_trichotomy a.bytes b.bytes with hlt | heq | hgt
    · have h1 := compare_lt ha hb hlt
      have h2 := compare_gt hb ha hlt
      have hngt : ¬ b.bytes < a.bytes := fun h => List.lt_irrefl _ (List.lt_trans h hlt)
      refine ⟨iff_of_false (by omega) ?_, iff_of_true h1 ?_, iff_of_false (by omega) ?_, ?_,
        htrans_le, htrans_lt⟩
      · rwa [eq_iff ha hb]
      · rwa [lt_iff ha hb]
      · rwa [gt_iff ha hb]
      · rw [Int.sign_eq_neg_one_of_neg h1, Int.sign_eq_one_of_pos h2, Int.neg_neg]
    · exact absurd heq hne
    · have h1 := compare_gt ha hb hgt
      have h2 := compare_lt hb ha hgt
      have hnlt : ¬ a.bytes < b.bytes := fun h => List.lt_irrefl _ (List.lt_trans h hgt)
      refine ⟨iff_of_false (by omega) ?_, iff_of_false (by omega) ?_, iff_of_true h1 ?_, ?_,
        htrans_le, htrans_lt⟩
      · rwa [eq_iff ha hb]
      · rwa [lt_iff ha hb]
      · rwa [gt_iff ha hb]
      · rw [Int.sign_eq_one_of_pos h1, Int.sign_eq_neg_one_of_neg h2]

/-- Three prefixes of one string. -/
theorem threeWay_iff_prefixes :
    ThreeWay ⟨ascii "abc", 1⟩ ⟨ascii "abc", 0⟩ ⟨ascii "abc", 3⟩ ↔
      bytes ⟨ascii "abc", 1⟩ ≠ bytes ⟨ascii "abc", 0⟩ :=
  threeWay_iff _ _ _ (by decide) (by decide) (by decide)

/-- A string compared with itself. -/
theorem compare_self_gt :
    Valid ⟨ascii "abc", 3⟩ ∧ compare ⟨ascii "abc", 3⟩ ⟨ascii "abc", 3⟩ = 1 ∧
    eq ⟨ascii "abc", 3⟩ ⟨ascii "abc", 3⟩ = true ∧
    ¬ ThreeWay ⟨ascii "abc", 3⟩ ⟨ascii "abc", 3⟩ ⟨ascii "abc", 3⟩ :=
  ⟨Nat.le_refl _, by decide, by decide, fun h => absurd (h.zero.mpr (by decide)) (by decide)⟩

end StringPiece

end MultiThreadLog
