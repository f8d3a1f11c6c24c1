import MultiThreadLog.LogStream.Insert

/-!
# What a stream accepts, and where it stores

The text of a `LogStream` as a machine of its own (`Op.apply`): a text piece is accepted when it
is shorter than the free space, a number when 32 bytes are free, and an accepted piece is added
at the end. `insert_eq` is one step of the refinement, `stream_text_of_ops` the run; both ask that
every text is a C string of exactly the length passed (`Text.Ok`), because the copy is a `strcpy`.

The last section asks where `append` stores. The guard looks at `len` and the copy at the first
NUL, so the stores stay inside the free part of the array exactly when the call is rejected or
the C string at the pointer is shorter than the free space.
-/

namespace MultiThreadLog

open Bytes Numeral

/-! ## Pieces -/

/-- The text is a C string whose `strlen` is the length passed. A `char` counts as its one-byte
string: the byte behind it ends the copy. -/
def Text.Ok : Text → Prop
  | .char _ after => cstr after = []
  | t => strlen t.ptr = t.len

def Insertion.Ok : Insertion → Prop
  | .text t => t.Ok
  | .number _ => True

/-- The bytes a text stands for. -/
def Text.bytes : Text → List UInt8
  | .bool b => ascii (if b then "1" else "0")
  | .char ch _ => [ch]
  | .cstring (some str) => cstr str
  | .cstring none => ascii "(null)"
  | .string str => str
  | .piece strp => strp.ptr.take strp.length
  | .fmt f => f.text
  | .buffer b _ => b.toString

def Insertion.bytes : Insertion → List UInt8
  | .text t => t.bytes
  | .number n => n.bytes

/-- The free space an insertion asks for: more than the length of a text, the reserved size of a
number. -/
def Insertion.need : Insertion → Nat
  | .text t => t.len + 1
  | .number _ => LogStream.kMaxNumericSize

def LogStream.Accepts (s : LogStream) (i : Insertion) : Prop := i.need ≤ s.buffer.avail

/-- A text of exactly `len` bytes is what lies at the pointer. -/
theorem Text.bytes_eq {t : Text} (h : strlen t.ptr = t.len) : t.bytes = cstr t.ptr := by
  rw [cstr_eq_take, h]
  cases t with
  | bool b => cases b <;> rfl
  | char ch after => rfl
  | cstring str =>
    cases str with
    | none => decide
    | some str => exact cstr_eq_take str
  | string str => exact (List.take_length).symm
  | piece strp => rfl
  | fmt f =>
    have : f.text.length ≤ 31 := by
      have := strlen_le f.data
      have hl : strlen f.data = f.text.length := h
      rw [Fmt.data, List.length_take] at this
      rw [Fmt.data] at hl
      omega
    simp only [Text.bytes, Text.ptr, Text.len, Fmt.data, Fmt.length]
    rw [List.take_of_length_le this, List.take_length]
  | buffer b after =>
    have hb : b.length ≤ kSmallBuffer := b.cur_le
    simp only [Text.bytes, Text.ptr, Text.len, FixedBuffer.toString]
    rw [List.take_append_of_le_length (by simpa using hb), load_take hb]

/-- What `append` copies of a well-formed text: its bytes, and nothing beyond the terminator. -/
theorem Text.Ok.copied {t : Text} (h : t.Ok) :
    strlen t.ptr ≤ t.len ∧ t.len ≤ strlen t.ptr + 1 ∧ (cstr t.ptr ++ [0]).take t.len = t.bytes := by
  have whole : strlen t.ptr = t.len → strlen t.ptr ≤ t.len ∧ t.len ≤ strlen t.ptr + 1 ∧
      (cstr t.ptr ++ [0]).take t.len = t.bytes := by
    intro hs
    refine ⟨by omega, by omega, ?_⟩
    rw [t.bytes_eq hs, List.take_append_of_le_length (by rw [← hs]; exact Nat.le_refl _),
      List.take_of_length_le (by rw [← hs]; exact Nat.le_refl _)]
  cases t with
  | char ch after =>
    have ha : cstr after = [] := h
    by_cases hc : ch = 0
    · subst hc; exact ⟨by simp [strlen, cstr, ptr], by simp [len], rfl⟩
    · have : cstr (ch :: after) = [ch] := by
        rw [cstr, List.takeWhile_cons_of_pos (by simpa using hc), ← cstr, ha]
      simp [strlen, ptr, len, bytes, this]
  | bool _ | cstring _ | string _ | piece _ | fmt _ | buffer _ _ => exact whole h

theorem Text.Ok.bytes_length {t : Text} (h : t.Ok) : t.bytes.length = t.len := by
  obtain ⟨_, h2, h3⟩ := h.copied
  rw [← h3, List.length_take, List.length_append]
  exact Nat.min_eq_left h2

/-! ## One insertion -/

/-- **One insertion.** An accepted piece is added and what was written stays; a rejected one
changes nothing. -/
theorem LogStream.insert_eq (s : LogStream) {i : Insertion} (h : i.Ok) :
    ∃ s', s.insert i = some s' ∧
      (s.Accepts i → s.Adds s' i.bytes) ∧ (¬ s.Accepts i → s' = s) := by
  cases i with
  | number n => exact s.insert_number n
  | text t =>
    obtain ⟨h1, h2, h3⟩ := Text.Ok.copied h
    by_cases ha : t.len < s.buffer.avail
    · obtain ⟨b', hb⟩ : ∃ b', s.buffer.append t.ptr t.len = some b' :=
        FixedBuffer.append_defined (by omega)
      refine ⟨⟨b'⟩, by simp [insert, LogStream.append, hb], fun _ => ⟨?_, ?_, ?_⟩,
        fun hn => absurd ha hn⟩
      · show b'.length = _ + t.bytes.length
        rw [FixedBuffer.append_length hb, if_pos ha, Text.Ok.bytes_length h]
      · show b'.toString = _ ++ t.bytes
        rw [FixedBuffer.append_toString hb ha h2, h3]
      · exact fun k hk => FixedBuffer.append_data hb hk
    · refine ⟨s, ?_, fun hn => absurd hn ha, fun _ => rfl⟩
      simp [insert, LogStream.append, FixedBuffer.append_rejected (Nat.le_of_not_lt ha)]

/-- A number or text never fills the last byte. -/
theorem Insertion.Ok.fits {i : Insertion} (h : i.Ok) : i.bytes.length < i.need := by
  cases i with
  | number n => exact Nat.lt_of_le_of_lt n.bytes_length (by simp [need, LogStream.kMaxNumericSize])
  | text t => exact Nat.lt_succ_of_le (Nat.le_of_eq (Text.Ok.bytes_length h))

/-! ## Runs -/

namespace LogStream

def Op.Ok : Op → Prop
  | .insert i => i.Ok
  | .resetBuffer => True

/-- The effect of an operation on the text. -/
def Op.apply (text : List UInt8) : Op → List UInt8
  | .insert i => if i.need ≤ kSmallBuffer - text.length then text ++ i.bytes else text
  | .resetBuffer => []

/-- The stream holds the text `text`, with the last byte of the buffer unused. -/
structure Holds (s : LogStream) (text : List UInt8) : Prop where
  text_eq : s.buffer.toString = text
  room : s.buffer.length ≤ kSmallBuffer - 1

theorem holds_new (leftover : Nat → UInt8) : Holds (new leftover) [] :=
  ⟨FixedBuffer.toString_of_length rfl, Nat.zero_le _⟩

theorem Holds.accepts_iff {s : LogStream} {text : List UInt8} (h : s.Holds text) (i : Insertion) :
    s.Accepts i ↔ i.need ≤ kSmallBuffer - text.length := by
  rw [← h.text_eq, FixedBuffer.length_toString]
  rfl

theorem Holds.step {s : LogStream} {text : List UInt8} (h : s.Holds text) {op : Op} (hop : op.Ok) :
    ∃ s', s.step op = some s' ∧ s'.Holds (op.apply text) := by
  cases op with
  | resetBuffer => exact ⟨_, rfl, FixedBuffer.toString_of_length rfl, Nat.zero_le _⟩
  | insert i =>
    obtain ⟨s', hs, hacc, hrej⟩ := s.insert_eq hop
    refine ⟨s', hs, ?_⟩
    show s'.Holds (if _ then _ else _)
    by_cases ha : s.Accepts i
    · obtain ⟨hl, ht, -⟩ := hacc ha
      rw [if_pos ((h.accepts_iff i).mp ha)]
      refine ⟨by rw [ht, h.text_eq], ?_⟩
      have h1 := Insertion.Ok.fits hop
      have h2 := s.buffer.avail_add_length
      unfold Accepts at ha
      unfold kSmallBuffer at *
      omega
    · rw [if_neg fun hn => ha ((h.accepts_iff i).mpr hn), hrej ha]
      exact h

theorem Holds.exec {s : LogStream} {text : List UInt8} (h : s.Holds text) :
    ∀ {ops : List Op}, (∀ op ∈ ops, op.Ok) →
      ∃ s', Lts.exec LogStream.step s ops = some s' ∧ s'.Holds (ops.foldl Op.apply text)
  | [], _ => ⟨s, rfl, h⟩
  | op :: ops, hok => by
    obtain ⟨t, ht, hh⟩ := h.step (hok op List.mem_cons_self)
    obtain ⟨s', hs', hh'⟩ := hh.exec fun o ho => hok o (List.mem_cons_of_mem _ ho)
    exact ⟨s', by rw [Lts.exec, ht, Option.bind_some, hs'], hh'⟩

/-- A chain of insertions. -/
theorem Holds.insertAll {s : LogStream} {text : List UInt8} (h : s.Holds text)
    {is : List Insertion} (hok : ∀ i ∈ is, i.Ok) :
    ∃ s', s.insertAll is = some s' ∧
      s'.Holds (is.foldl (fun t i => Op.apply t (.insert i)) text) := by
  induction is generalizing s text with
  | nil => exact ⟨s, rfl, h⟩
  | cons i is ih =>
    obtain ⟨t, ht, hh⟩ := h.step (show Op.Ok (.insert i) from hok i List.mem_cons_self)
    obtain ⟨s', hs', hh'⟩ := ih hh fun j hj => hok j (List.mem_cons_of_mem _ hj)
    refine ⟨s', ?_, hh'⟩
    rw [LogStream.insertAll, Lts.exec, show s.insert i = some t from ht, Option.bind_some]
    exact hs'

/-- **The text of a stream.** After any operations the stream holds the pieces accepted since the
last reset, in order, and never fills its last byte; in the state reached a further insertion is
accepted by the rule and then only adds its piece, or is rejected and changes nothing. -/
theorem stream_text_of_ops (leftover : Nat → UInt8) (ops : List Op) (hok : ∀ op ∈ ops, op.Ok) :
    ∃ s, Lts.exec step (new leftover) ops = some s ∧
      s.buffer.toString = ops.foldl Op.apply [] ∧
      s.buffer.length ≤ kSmallBuffer - 1 ∧
      ∀ i : Insertion, i.Ok → ∃ s', s.insert i = some s' ∧
        (s.Accepts i → s'.buffer.toString = s.buffer.toString ++ i.bytes ∧
          ∀ k, k < s.buffer.length → s'.buffer.data k = s.buffer.data k) ∧
        (¬ s.Accepts i → s' = s) := by
  obtain ⟨s, hs, hh⟩ := (holds_new leftover).exec hok
  refine ⟨s, hs, hh.text_eq, hh.room, fun i hi => ?_⟩
  obtain ⟨s', hs', hacc, hrej⟩ := s.insert_eq hi
  exact ⟨s', hs', fun ha => ⟨(hacc ha).text_eq, (hacc ha).kept⟩, hrej⟩

theorem stream_text_of_ops_mixed :
    ∃ s, Lts.exec step (new fun _ => 7) [.insert (.text (.bool true)), .resetBuffer,
      .insert (.number (.int (-5))), .insert (.text (.char 120 [])),
      .insert (.text (.cstring none)), .insert (.number (.pointer 8888))] = some s ∧
      s.buffer.toString = ascii "-5x(null)0x22B8" := by
  obtain ⟨s, hs, ht, -⟩ := stream_text_of_ops (fun _ => 7) [.insert (.text (.bool true)),
    .resetBuffer, .insert (.number (.int (-5))), .insert (.text (.char 120 [])),
    .insert (.text (.cstring none)), .insert (.number (.pointer 8888))] (by
      simp only [List.forall_mem_cons, Op.Ok, Insertion.Ok, Text.Ok, List.not_mem_nil,
        false_implies, implies_true, and_true, true_and]
      decide)
  exact ⟨s, hs, ht.trans (by decide)⟩

end LogStream

/-! ## Where `append` stores -/

namespace FixedBuffer

variable {SIZE : Nat}

/-- Every byte a call of `append` stores lies in `data_[length() .. SIZE)`, and a call without
room stores nothing. -/
def Confined (b : FixedBuffer SIZE) (buf : List UInt8) (len : Nat) : Prop :=
  (∀ s ∈ b.appendStores buf len, b.length ≤ s.1 ∧ s.1 < SIZE) ∧
    (b.avail ≤ len → b.appendStores buf len = [])

theorem confined_iff (b : FixedBuffer SIZE) (buf : List UInt8) (len : Nat) :
    b.Confined buf len ↔ b.avail ≤ len ∨ strlen buf < b.avail := by
  have hcur := b.avail_add_length
  unfold length at hcur
  by_cases hlen : len < b.avail
  · rw [Confined, appendStores, if_pos hlen]
    constructor
    · rintro ⟨hin, -⟩
      obtain ⟨s, hs, e⟩ : ∃ s ∈ placed b.cur (cstr buf ++ [0]), s.1 = b.cur + strlen buf :=
        exists_mem_placed (by omega) (by simp [strlen])
      have := (hin s hs).2
      omega
    · intro h
      refine ⟨fun s hs => ?_, fun hn => absurd hlen (by omega)⟩
      have hm := mem_placed hs
      rw [List.length_append, List.length_singleton] at hm
      unfold strlen at h
      unfold length
      omega
  · rw [Confined, appendStores, if_neg hlen]
    simp [Nat.le_of_not_lt hlen]

/-- A pointer whose C string is at most as long as promised is copied inside the array. -/
theorem confined_of_strlen_le {b : FixedBuffer SIZE} {buf : List UInt8} {len : Nat}
    (h : strlen buf ≤ len) : b.Confined buf len :=
  (b.confined_iff buf len).mpr (by omega)

end FixedBuffer

/-- The overloads that hand over a terminated string: `bool`, C strings and null, `std::string`. -/
def Text.Terminated : Text → Prop
  | .bool _ | .cstring _ | .string _ => True
  | _ => False

/-- These overloads stay inside the array whatever the buffer holds. -/
theorem Text.Terminated.confined {t : Text} (h : t.Terminated) (b : FixedBuffer kSmallBuffer) :
    b.Confined t.ptr t.len := by
  apply FixedBuffer.confined_of_strlen_le
  cases t with
  | bool b => cases b <;> decide
  | cstring str =>
    cases str with
    | none => decide
    | some str => exact Nat.le_refl _
  | string str => exact strlen_le str
  | char _ _ | piece _ | fmt _ | buffer _ _ => exact h.elim

/-- **Where the callers of `append` store**: inside the free part of the array exactly when the
call is rejected or the string at the pointer ends within the free space. -/
theorem callers_confined_iff (buffer_ : FixedBuffer kSmallBuffer) (t : Text)
    (currentBuffer_ : FixedBuffer kLargeBuffer) (logline : List UInt8) (len : Nat) :
    (buffer_.Confined t.ptr t.len ↔ buffer_.avail ≤ t.len ∨ strlen t.ptr < buffer_.avail) ∧
    (currentBuffer_.Confined logline len ↔
      currentBuffer_.avail ≤ len ∨ strlen logline < currentBuffer_.avail) :=
  ⟨buffer_.confined_iff t.ptr t.len, currentBuffer_.confined_iff logline len⟩

/-- One byte of a long string, inserted as a `StringPiece` into a fresh stream, is copied past the
end of the array. -/
theorem piece_not_confined :
    ¬ (LogStream.new fun _ => 0).buffer.Confined
      (Text.piece ⟨List.replicate 5000 97, 1⟩).ptr
      (Text.piece ⟨List.replicate 5000 97, 1⟩).len := by
  rw [FixedBuffer.confined_iff]
  have hs : strlen (List.replicate 5000 97) = 5000 := by
    rw [strlen, cstr_eq_self fun b hb => by rw [List.eq_of_mem_replicate hb]; decide,
      List.length_replicate]
  simp only [Text.ptr, Text.len, hs]
  decide

end MultiThreadLog
