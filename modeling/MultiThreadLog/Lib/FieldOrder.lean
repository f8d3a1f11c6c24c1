import Mathlib.Tactic.Ring
import MultiThreadLog.Lib.Numeral

/-!
# Texts in the order of their fields

The order of byte texts is lexicographic. Digit strings of one length are ordered as their numbers
(`digits_lt_iff`), so a text that starts with a zero-padded field is ordered by the number in the
field first and by the rest then (`zeroField_append_lt_iff`).
-/

namespace Numeral

open Bytes

section Lex

variable {α : Type} [LT α] {l l' t t' : List α}

/-- Texts whose first parts have the same length. -/
theorem append_lt_append_iff (h : l.length = l'.length) (hirrefl : ∀ x : α, ¬ x < x) :
    l ++ t < l' ++ t' ↔ l < l' ∨ l = l' ∧ t < t' := by
  induction l generalizing l' with
  | nil =>
    obtain rfl := List.length_eq_zero_iff.mp h.symm
    simp
  | cons x l ih =>
    rcases l' with _ | ⟨y, l'⟩
    · cases h
    rw [List.cons_append, List.cons_append, List.cons_lt_cons_iff, List.cons_lt_cons_iff,
      ih (Nat.succ.inj h), List.cons.injEq]
    by_cases hxy : x = y
    · have := hirrefl y
      simp [hxy, this]
    · simp [hxy]

end Lex

variable {l l' t t' : List UInt8} {w : Nat} {v v' : Int}

theorem literal_append_lt_iff (l : List UInt8) : l ++ t < l ++ t' ↔ t < t' := by
  rw [append_lt_append_iff rfl UInt8.lt_irrefl]
  simp [List.lt_irrefl]

/-- Every byte is a decimal digit. -/
def Digits (l : List UInt8) : Prop := ∀ b ∈ l, 48 ≤ b.toNat ∧ b.toNat < 58

theorem foldl_digits (acc : Nat) (l : List UInt8) :
    l.foldl (fun a b => 10 * a + (b.toNat - 48)) acc = acc * 10 ^ l.length + valueOf l := by
  induction l generalizing acc with
  | nil => simp [valueOf]
  | cons b l ih =>
    rw [valueOf, List.foldl_cons, List.foldl_cons, ih, ih (10 * 0 + _), List.length_cons]
    ring

/-- The first digit counts the most. -/
theorem valueOf_cons (b : UInt8) (l : List UInt8) :
    valueOf (b :: l) = (b.toNat - 48) * 10 ^ l.length + valueOf l := by
  rw [valueOf, List.foldl_cons, foldl_digits, Nat.mul_zero, Nat.zero_add]

theorem valueOf_lt (h : Digits l) : valueOf l < 10 ^ l.length := by
  induction l with
  | nil => simp [valueOf]
  | cons b l ih =>
    have hb := h b List.mem_cons_self
    have hl := ih fun c hc => h c (List.mem_cons_of_mem _ hc)
    have hmul : (b.toNat - 48) * 10 ^ l.length ≤ 9 * 10 ^ l.length :=
      Nat.mul_le_mul_right _ (by omega)
    rw [valueOf_cons, List.length_cons, Nat.pow_succ]
    omega

/-- **Digit strings of one length** are ordered as their numbers. -/
theorem digits_lt_iff (hlen : l.length = l'.length) (h : Digits l) (h' : Digits l') :
    l < l' ↔ valueOf l < valueOf l' := by
  induction l generalizing l' with
  | nil =>
    obtain rfl := List.length_eq_zero_iff.mp hlen.symm
    simp [valueOf]
  | cons b l ih =>
    rcases l' with _ | ⟨c, l'⟩
    · cases hlen
    replace hlen : l.length = l'.length := Nat.succ.inj hlen
    have hb := h b List.mem_cons_self
    have hc := h' c List.mem_cons_self
    have hl : Digits l := fun x hx => h x (List.mem_cons_of_mem _ hx)
    have hl' : Digits l' := fun x hx => h' x (List.mem_cons_of_mem _ hx)
    have hlt := valueOf_lt hl
    have hlt' := valueOf_lt hl'
    rw [List.cons_lt_cons_iff, ih hlen hl hl', valueOf_cons, valueOf_cons, UInt8.lt_iff_toNat_lt,
      ← UInt8.toNat_inj, hlen]
    rw [hlen] at hlt
    rcases Nat.lt_trichotomy b.toNat c.toNat with hbc | hbc | hbc
    · have hmul : (b.toNat - 48 + 1) * 10 ^ l'.length ≤ (c.toNat - 48) * 10 ^ l'.length :=
        Nat.mul_le_mul_right _ (by omega)
      rw [Nat.add_mul, Nat.one_mul] at hmul
      omega
    · rw [hbc]
      omega
    · have hmul : (c.toNat - 48 + 1) * 10 ^ l'.length ≤ (b.toNat - 48) * 10 ^ l'.length :=
        Nat.mul_le_mul_right _ (by omega)
      rw [Nat.add_mul, Nat.one_mul] at hmul
      omega

theorem digits_decimalNat (n : Nat) : Digits (decimalNat n) := fun _ hb => digit_of_mem hb

theorem digits_padLeft (h : Digits l) : Digits (padLeft w 48 l) := by
  intro b hb
  rcases List.mem_append.mp hb with hb | hb
  · rw [List.eq_of_mem_replicate hb]
    decide
  · exact h b hb

/-- The number fits into the field. -/
def Fits (w : Nat) (v : Int) : Prop := 0 ≤ v ∧ v < 10 ^ w

theorem zeroField_lt_iff (hw : 0 < w) (h : Fits w v) (h' : Fits w v') :
    zeroField w v < zeroField w v' ↔ v < v' := by
  have hlen : (zeroField w v).length = (zeroField w v').length := by
    rw [zeroField_length hw h.1 h.2, zeroField_length hw h'.1 h'.2]
  rw [zeroField_of_nonneg h.1, zeroField_of_nonneg h'.1] at hlen ⊢
  rw [digits_lt_iff hlen (digits_padLeft (digits_decimalNat _))
    (digits_padLeft (digits_decimalNat _)), valueOf_padLeft, valueOf_padLeft]
  have := h.1
  have := h'.1
  omega

/-- **The field first**, then the rest. -/
theorem zeroField_append_lt_iff (hw : 0 < w) (h : Fits w v) (h' : Fits w v') :
    zeroField w v ++ t < zeroField w v' ++ t' ↔ v < v' ∨ v = v' ∧ t < t' := by
  have hlen : (zeroField w v).length = (zeroField w v').length := by
    rw [zeroField_length hw h.1 h.2, zeroField_length hw h'.1 h'.2]
  rw [append_lt_append_iff hlen UInt8.lt_irrefl, zeroField_lt_iff hw h h']
  have hinj : zeroField w v = zeroField w v' ↔ v = v' :=
    ⟨zeroField_inj h.1 h'.1, fun e => by rw [e]⟩
  rw [hinj]

end Numeral
