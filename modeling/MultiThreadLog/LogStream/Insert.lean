import MultiThreadLog.Lib.Runs
import MultiThreadLog.LogStream.FixedBuffer
import MultiThreadLog.LogStream.Convert

/-!
# `LogStream`: the insertion operators

`operator<<` has two kinds of overloads. The text overloads (`Text`) call
`buffer_.append(ptr, len)`; `Text.ptr` and `Text.len` are the pointer and the length each of them
passes. The number overloads (`Number`) test for `kMaxNumericSize` free bytes and write the
numeral in place. `insert` is the operator, `Op` an insertion or a `resetBuffer`.

Floating point is left out.
-/

namespace MultiThreadLog

open Bytes Numeral

/-- A range of bytes owned by somebody else: the memory from `ptr_` on, and `length_`. -/
structure StringPiece where
  ptr : List UInt8
  length : Nat

/-- A `Fmt`: the text `snprintf` renders. `buf_` holds its first 31 bytes. -/
structure Fmt where
  text : List UInt8

def Fmt.data (f : Fmt) : List UInt8 := f.text.take 31

def Fmt.length (f : Fmt) : Nat := f.text.length

/-- What the text overloads of `operator<<` take. `after` is the memory behind the object. -/
inductive Text where
  | bool (b : Bool)
  | char (ch : UInt8) (after : List UInt8)
  | cstring (str : Option (List UInt8))
  | string (str : List UInt8)
  | piece (strp : StringPiece)
  | fmt (f : Fmt)
  | buffer (b : FixedBuffer kSmallBuffer) (after : List UInt8)

/-- The pointer handed to `buffer_.append`. -/
def Text.ptr : Text → List UInt8
  | .bool b => ascii (if b then "1" else "0")
  | .char ch after => ch :: after
  | .cstring (some str) => str
  | .cstring none => ascii "(null)"
  | .string str => str
  | .piece strp => strp.ptr
  | .fmt f => f.data
  | .buffer b after => load b.data 0 kSmallBuffer ++ after

/-- The length handed to `buffer_.append`. -/
def Text.len : Text → Nat
  | .bool _ => 1
  | .char _ _ => 1
  | .cstring (some str) => strlen str
  | .cstring none => 6
  | .string str => str.length
  | .piece strp => strp.length
  | .fmt f => f.length
  | .buffer b _ => b.length

/-- What the number overloads of `operator<<` take. -/
inductive Number where
  | short (v : Int16)
  | ushort (v : UInt16)
  | int (v : Int32)
  | uint (v : UInt32)
  | long (v : Int64)
  | ulong (v : UInt64)
  | longlong (v : Int64)
  | ulonglong (v : UInt64)
  | pointer (p : UInt64)

inductive Insertion where
  | text (t : Text)
  | number (n : Number)

structure LogStream where
  buffer : FixedBuffer kSmallBuffer

namespace LogStream

def new (leftover : Nat → UInt8) : LogStream := ⟨.new leftover⟩

def kMaxNumericSize : Nat := 32

def append (s : LogStream) (data : List UInt8) (len : Nat) : Option LogStream :=
  (s.buffer.append data len).map mk

def resetBuffer (s : LogStream) : LogStream := ⟨s.buffer.reset⟩

def formatInteger (s : LogStream) (v : Int) : Option LogStream :=
  if kMaxNumericSize ≤ s.buffer.avail then
    let (ss, len) := convert s.buffer.cur v
    ((s.buffer.write ss).bind (·.add len)).map mk
  else some s

/-- `operator<<(const void* p)`. -/
def formatPointer (s : LogStream) (p : UInt64) : Option LogStream :=
  if kMaxNumericSize ≤ s.buffer.avail then
    let (ss, len) := convertHex (s.buffer.cur + 2) p.toNat
    ((s.buffer.write (placed s.buffer.cur (ascii "0x") ++ ss)).bind (·.add (len + 2))).map mk
  else some s

/-- `operator<<`. The short types go through the overloads of `int` and `unsigned int`. -/
def insert (s : LogStream) : Insertion → Option LogStream
  | .text t => s.append t.ptr t.len
  | .number (.short v) => s.formatInteger v.toInt32.toInt
  | .number (.ushort v) => s.formatInteger v.toUInt32.toNat
  | .number (.int v) => s.formatInteger v.toInt
  | .number (.uint v) => s.formatInteger v.toNat
  | .number (.long v) => s.formatInteger v.toInt
  | .number (.ulong v) => s.formatInteger v.toNat
  | .number (.longlong v) => s.formatInteger v.toInt
  | .number (.ulonglong v) => s.formatInteger v.toNat
  | .number (.pointer p) => s.formatPointer p

inductive Op where
  | insert (i : Insertion)
  | resetBuffer

def step (s : LogStream) : Op → Option LogStream
  | .insert i => s.insert i
  | .resetBuffer => some s.resetBuffer

/-- A chain `s << i1 << i2 << ...`. -/
def insertAll (s : LogStream) (is : List Insertion) : Option LogStream := Lts.exec insert s is

end LogStream

/-! ## Numbers -/

/-- The numeral a number is written as. -/
def Number.bytes : Number → List UInt8
  | .short v => decimal v.toInt
  | .ushort v => decimal v.toNat
  | .int v => decimal v.toInt
  | .uint v => decimal v.toNat
  | .long v => decimal v.toInt
  | .ulong v => decimal v.toNat
  | .longlong v => decimal v.toInt
  | .ulonglong v => decimal v.toNat
  | .pointer p => ascii "0x" ++ hexUpper p.toNat

/-- A numeral of a 64-bit value takes at most 20 bytes. -/
theorem decimal_int64_length {v : Int} (h1 : -2 ^ 63 ≤ v) (h2 : v < 2 ^ 64) :
    (decimal v).length ≤ 20 := by
  by_cases hv : v < 0
  · exact decimal_length_le (k := 19) (by omega) (by omega)
  · rw [decimal, if_neg hv]
    exact decimalNat_length_le (by omega) (by omega)

namespace LogStream

/-- `s'` is `s` with the text `t` added at the end; every byte written before stays. -/
structure Adds (s s' : LogStream) (t : List UInt8) : Prop where
  length_eq : s'.buffer.length = s.buffer.length + t.length
  text_eq : s'.buffer.toString = s.buffer.toString ++ t
  kept : ∀ i, i < s.buffer.length → s'.buffer.data i = s.buffer.data i

variable {s s' : LogStream}

/-- What the number overloads do, once the numeral is known to fit. -/
theorem formatInteger_eq {v : Int} (hv : (decimal v).length < 32) :
    ∃ s', s.formatInteger v = some s' ∧
      (kMaxNumericSize ≤ s.buffer.avail → s.Adds s' (decimal v)) ∧
      (¬ kMaxNumericSize ≤ s.buffer.avail → s' = s) := by
  unfold formatInteger
  split
  · rename_i ha
    have : 32 ≤ s.buffer.avail := ha
    obtain ⟨hr, hl⟩ := convert_renders s.buffer.cur v
    obtain ⟨b', hb, h⟩ := FixedBuffer.write_add hr (by omega)
    exact ⟨⟨b'⟩, by simp only [hl, hb, Option.map_some], fun _ => ⟨h.1, h.2.1, h.2.2⟩,
      fun hn => absurd ha hn⟩
  · rename_i ha
    exact ⟨s, rfl, fun h => absurd h ha, fun _ => rfl⟩

theorem formatPointer_eq (p : UInt64) :
    ∃ s', s.formatPointer p = some s' ∧
      (kMaxNumericSize ≤ s.buffer.avail → s.Adds s' (Number.pointer p).bytes) ∧
      (¬ kMaxNumericSize ≤ s.buffer.avail → s' = s) := by
  have hlen : (hexUpper p.toNat).length ≤ 16 := hexUpper_length_le (by omega) p.toNat_lt
  have htwo : (ascii "0x").length = 2 := by decide
  unfold formatPointer
  split
  · rename_i ha
    have : 32 ≤ s.buffer.avail := ha
    obtain ⟨hr, hl⟩ := convertHex_renders (s.buffer.cur + 2) p.toNat
    rw [← htwo] at hr
    obtain ⟨b', hb, h⟩ := FixedBuffer.write_add hr.cons (by rw [List.length_append]; omega)
    rw [List.length_append, htwo, Nat.add_comm 2 (hexUpper p.toNat).length] at hb
    exact ⟨⟨b'⟩, by simp only [hl, hb, Option.map_some], fun _ => ⟨h.1, h.2.1, h.2.2⟩,
      fun hn => absurd ha hn⟩
  · rename_i ha
    exact ⟨s, rfl, fun h => absurd h ha, fun _ => rfl⟩

end LogStream

theorem Number.bytes_length (n : Number) : n.bytes.length ≤ 20 := by
  cases n with
  | short v | int v | long v | longlong v =>
    have hlo := v.le_toInt
    have hhi := v.toInt_lt
    exact decimal_int64_length (by omega) (by omega)
  | ushort v | uint v | ulong v | ulonglong v =>
    have hhi := v.toNat_lt
    exact decimal_int64_length (by omega) (by omega)
  | pointer p =>
    have : (hexUpper p.toNat).length ≤ 16 := hexUpper_length_le (by omega) p.toNat_lt
    have htwo : (ascii "0x").length = 2 := by decide
    rw [Number.bytes, List.length_append]
    omega

/-- **The number overloads.** With 32 bytes free the numeral is added, otherwise nothing
happens. -/
theorem LogStream.insert_number (s : LogStream) (n : Number) :
    ∃ s', s.insert (.number n) = some s' ∧
      (kMaxNumericSize ≤ s.buffer.avail → s.Adds s' n.bytes) ∧
      (¬ kMaxNumericSize ≤ s.buffer.avail → s' = s) := by
  have hlen : n.bytes.length < 32 := Nat.lt_of_le_of_lt n.bytes_length (by decide)
  cases n with
  | short v =>
    simp only [insert, Int16.toInt_toInt32]
    exact formatInteger_eq hlen
  | ushort v =>
    simp only [insert, UInt16.toNat_toUInt32]
    exact formatInteger_eq hlen
  | pointer p => exact formatPointer_eq p
  | int v | uint v | long v | ulong v | longlong v | ulonglong v =>
    exact formatInteger_eq hlen

end MultiThreadLog
