import MultiThreadLog.LogStream.Insert

/-!
# What a number is written as

The text of a number overload is the canonical numeral of the value, base 10 with the sign in
front or `0x` and upper-case base 16 (`Number.Numeral`). The overloads make the stores
`Number.stores`, digits and terminator first and then the reversal, all of them within the 32 bytes
that they ask for.
-/

namespace MultiThreadLog

open Bytes Numeral

/-- The value, for a pointer its address. -/
def Number.value : Number → Int
  | .short v => v.toInt
  | .ushort v => v.toNat
  | .int v => v.toInt
  | .uint v => v.toNat
  | .long v => v.toInt
  | .ulong v => v.toNat
  | .longlong v => v.toInt
  | .ulonglong v => v.toNat
  | .pointer p => p.toNat

/-- The text is the numeral that the number is to be written as. -/
def Number.Numeral (n : Number) (t : List UInt8) : Prop :=
  match n with
  | .pointer p => ∃ ds, t = ascii "0x" ++ ds ∧ Canonical 16 ds p.toNat ∧ t.length ≤ 18
  | n => ∃ ds, t = (if n.value < 0 then ascii "-" else []) ++ ds ∧
      Canonical 10 ds n.value.natAbs ∧ readInt t = some n.value ∧ t.length ≤ 20

/-- What the overload does from offset `o` on: its stores, and how far it moves `cur_`. -/
def Number.stores (o : Nat) : Number → List (Nat × UInt8) × Nat
  | .pointer p =>
    let (ss, len) := convertHex (o + 2) p.toNat
    (placed o (ascii "0x") ++ ss, len + 2)
  | n => convert o n.value

variable {s s' : LogStream} {n : Number}

theorem decimal_numeral {v : Int} (h1 : -2 ^ 63 ≤ v) (h2 : v < 2 ^ 64) :
    ∃ ds, decimal v = (if v < 0 then ascii "-" else []) ++ ds ∧ Canonical 10 ds v.natAbs ∧
      readInt (decimal v) = some v ∧ (decimal v).length ≤ 20 := by
  refine ⟨decimalNat v.natAbs, ?_, canonical_decimalNat _, readInt_decimal v,
    decimal_int64_length h1 h2⟩
  unfold decimal
  split <;> rfl

/-- **The numeral of a number** has the form that is asked for. -/
theorem Number.bytes_numeral (n : Number) : n.Numeral n.bytes := by
  cases n with
  | short v | int v | long v | longlong v =>
    have hlo := v.le_toInt
    have hhi := v.toInt_lt
    exact decimal_numeral (by omega) (by omega)
  | ushort v | uint v | ulong v | ulonglong v =>
    have hhi := v.toNat_lt
    exact decimal_numeral (by omega) (by omega)
  | pointer p =>
    have hlen : (hexUpper p.toNat).length ≤ 16 := hexUpper_length_le (by omega) p.toNat_lt
    have htwo : (ascii "0x").length = 2 := by decide
    refine ⟨_, rfl, canonical_hexUpper _, ?_⟩
    rw [Number.bytes, List.length_append]
    omega

/-- The stores leave the numeral behind and nothing else but the byte after it. -/
theorem Number.stores_render (n : Number) (o : Nat) : Renders o (n.stores o).1 n.bytes := by
  cases n with
  | pointer p =>
    have htwo : (ascii "0x").length = 2 := by decide
    have h := (convertHex_renders (o + 2) p.toNat).1
    rw [← htwo] at h
    exact h.cons
  | short v | ushort v | int v | uint v | long v | ulong v | longlong v | ulonglong v =>
    exact (convert_renders o _).1

theorem insert_eq_stores (s : LogStream) (n : Number) :
    s.insert (.number n) =
      if LogStream.kMaxNumericSize ≤ s.buffer.avail then
        ((s.buffer.write (n.stores s.buffer.cur).1).bind
          (·.add (n.stores s.buffer.cur).2)).map LogStream.mk
      else some s := by
  cases n with
  | short v =>
    simp only [LogStream.insert, Int16.toInt_toInt32]
    rfl
  | ushort v =>
    simp only [LogStream.insert, UInt16.toNat_toUInt32]
    rfl
  | int v | uint v | long v | ulong v | longlong v | ulonglong v | pointer p => rfl

/-- **Numbers in the stream.** With 32 bytes free a number overload adds the canonical numeral, and
every byte it stores, the terminator too, is one of these 32; with less it does nothing. -/
theorem insert_number_numeral (s : LogStream) (n : Number) :
    (32 ≤ s.buffer.avail → ∃ s' t, s.insert (.number n) = some s' ∧ n.Numeral t ∧ s.Adds s' t ∧
      s'.buffer.data = storeAll s.buffer.data (n.stores s.buffer.cur).1 ∧
      ∀ st ∈ (n.stores s.buffer.cur).1, s.buffer.cur ≤ st.1 ∧ st.1 < s.buffer.cur + 32) ∧
    (s.buffer.avail < 32 → s.insert (.number n) = some s) := by
  obtain ⟨s', hs', hadds, hstay⟩ := s.insert_number n
  constructor
  · intro havail
    refine ⟨s', n.bytes, hs', n.bytes_numeral, hadds havail, ?_, fun st hst => ?_⟩
    · have hmax : LogStream.kMaxNumericSize ≤ s.buffer.avail := havail
      rw [insert_eq_stores, if_pos hmax] at hs'
      obtain ⟨b', hb', rfl⟩ := Option.map_eq_some_iff.mp hs'
      obtain ⟨b1, hwrite, hadd⟩ := Option.bind_eq_some_iff.mp hb'
      rw [(FixedBuffer.add_eq hadd).1, (FixedBuffer.write_eq hwrite).2]
    · have h := n.stores_render s.buffer.cur
      have hlo := h.lo st hst
      have hhi := h.hi st hst
      have hlen := n.bytes_length
      omega
  · intro havail
    have hn : ¬ LogStream.kMaxNumericSize ≤ s.buffer.avail := Nat.not_le.mpr havail
    rw [hs', hstay hn]

/-- The smallest 64-bit number on a new stream. -/
theorem insert_number_numeral_min :
    ∃ s' t, (LogStream.new fun _ => 0).insert (.number (.longlong Int64.minValue)) = some s' ∧
      (Number.longlong Int64.minValue).Numeral t ∧ (LogStream.new fun _ => 0).Adds s' t := by
  obtain ⟨s', t, hs, ht, hadds, -⟩ :=
    (insert_number_numeral (LogStream.new fun _ => 0) (.longlong Int64.minValue)).1 (by decide)
  exact ⟨s', t, hs, ht, hadds⟩

end MultiThreadLog
