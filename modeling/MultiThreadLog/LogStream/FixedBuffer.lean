import MultiThreadLog.Lib.Bytes

/-!
# `FixedBuffer`: the fixed-size text buffer

`FixedBuffer<SIZE>` (`LogStream.h`) is an array `data_` and a write position `cur_` in it. The
position never passes the end of the array, so that bound is a field. Every write goes through
`write`, which performs a list of stores and is `none` when one of them falls outside `data_`:
the call is then undefined behaviour (the member behind the array is `cur_` itself) and has no
successor.

`append(buf, len)` reserves `len` bytes and copies with `strcpy`, so what it stores is decided
by the first NUL at `buf`, not by `len`. `append_cases` is the one place that says what a call
can do; `append_toString` is its effect on the text when the two lengths agree.
-/

namespace MultiThreadLog

open Bytes

def kSmallBuffer : Nat := 4000

def kLargeBuffer : Nat := 4000 * 1000

structure FixedBuffer (SIZE : Nat) where
  data : Nat → UInt8
  cur : Nat
  cur_le : cur ≤ SIZE

namespace FixedBuffer

variable {SIZE : Nat}

/-- The constructor: `data_` keeps whatever the memory held. -/
def new (leftover : Nat → UInt8) : FixedBuffer SIZE := ⟨leftover, 0, Nat.zero_le _⟩

def avail (b : FixedBuffer SIZE) : Nat := SIZE - b.cur

def length (b : FixedBuffer SIZE) : Nat := b.cur

/-- `cur_ += len`. -/
def add (b : FixedBuffer SIZE) (len : Nat) : Option (FixedBuffer SIZE) :=
  if h : b.cur + len ≤ SIZE then some { b with cur := b.cur + len, cur_le := h } else none

def reset (b : FixedBuffer SIZE) : FixedBuffer SIZE := ⟨b.data, 0, Nat.zero_le _⟩

def bzero (b : FixedBuffer SIZE) : FixedBuffer SIZE :=
  ⟨fun i => if i < SIZE then 0 else b.data i, 0, Nat.zero_le _⟩

def toString (b : FixedBuffer SIZE) : List UInt8 := load b.data 0 b.length

/-- Stores into `data_`. -/
def write (b : FixedBuffer SIZE) (ss : List (Nat × UInt8)) : Option (FixedBuffer SIZE) :=
  if ∀ s ∈ ss, s.1 < SIZE then some { b with data := storeAll b.data ss } else none

/-- The stores of `append(buf, len)`: `strcpy(cur_, buf)` behind the test `remain > len`. -/
def appendStores (b : FixedBuffer SIZE) (buf : List UInt8) (len : Nat) : List (Nat × UInt8) :=
  if len < b.avail then placed b.cur (cstr buf ++ [0]) else []

def append (b : FixedBuffer SIZE) (buf : List UInt8) (len : Nat) : Option (FixedBuffer SIZE) :=
  if len < b.avail then (b.write (b.appendStores buf len)).bind (·.add len) else some b

@[simp] theorem new_length (m : Nat → UInt8) : (new m : FixedBuffer SIZE).length = 0 := rfl
@[simp] theorem reset_length (b : FixedBuffer SIZE) : b.reset.length = 0 := rfl
@[simp] theorem bzero_length (b : FixedBuffer SIZE) : b.bzero.length = 0 := rfl
@[simp] theorem length_toString (b : FixedBuffer SIZE) : b.toString.length = b.length := by
  simp [toString]

theorem toString_of_length {b : FixedBuffer SIZE} (h : b.length = 0) : b.toString = [] := by
  rw [toString, h]; rfl

theorem avail_add_length (b : FixedBuffer SIZE) : b.avail + b.length = SIZE :=
  Nat.sub_add_cancel b.cur_le

theorem write_eq {b b' : FixedBuffer SIZE} {ss : List (Nat × UInt8)} (h : b.write ss = some b') :
    (∀ s ∈ ss, s.1 < SIZE) ∧ b' = { b with data := storeAll b.data ss } := by
  unfold write at h
  split at h
  · rename_i hs; exact ⟨hs, (Option.some.inj h).symm⟩
  · cases h

theorem add_eq {b b' : FixedBuffer SIZE} {len : Nat} (h : b.add len = some b') :
    b'.data = b.data ∧ b'.cur = b.cur + len := by
  unfold add at h
  split at h
  · cases h; exact ⟨rfl, rfl⟩
  · cases h

/-- Bytes stored from `cur_` up stay inside the array when there is room for them. -/
theorem write_placed {b : FixedBuffer SIZE} {bs : List UInt8} (h : bs.length ≤ b.avail) :
    b.write (placed b.cur bs) = some { b with data := storeAll b.data (placed b.cur bs) } := by
  have := b.cur_le
  unfold write
  rw [if_pos]
  intro s hs
  have := mem_placed hs
  unfold avail at h
  omega

/-- **A text written at `cur_` and skipped** is added to the text; what was there stays. -/
theorem write_add {b : FixedBuffer SIZE} {ss : List (Nat × UInt8)} {t : List UInt8}
    (h : Renders b.cur ss t) (hlen : t.length < b.avail) :
    ∃ b', (b.write ss).bind (·.add t.length) = some b' ∧ b'.length = b.length + t.length ∧
      b'.toString = b.toString ++ t ∧ ∀ i, i < b.length → b'.data i = b.data i := by
  have hcur := b.cur_le
  unfold avail at hlen
  have hw : b.write ss = some { b with data := storeAll b.data ss } :=
    if_pos fun s hs => by have := h.hi s hs; omega
  have hframe : ∀ i, i < b.length → storeAll b.data ss i = b.data i := fun i hi =>
    storeAll_of_ne fun s hs => by have := h.lo s hs; unfold length at hi; omega
  rw [hw, Option.bind_some]
  refine ⟨⟨storeAll b.data ss, b.cur + t.length, by omega⟩, dif_pos (by show b.cur + _ ≤ _; omega),
    rfl, ?_, hframe⟩
  show load (storeAll b.data ss) 0 (b.cur + t.length) = b.toString ++ t
  rw [load_add, Nat.zero_add, h.text, toString, length,
    load_congr (o := 0) fun i _ hi => hframe i (by unfold length; omega)]

/-! ## `append` -/

/-- **The full-buffer case**: nothing is written and the position stays. -/
theorem append_rejected {b : FixedBuffer SIZE} {buf : List UInt8} {len : Nat} (h : b.avail ≤ len) :
    b.append buf len = some b := by
  rw [append, if_neg (by omega)]

/-- `append` is defined when the C string at `buf` fits behind `cur_`. -/
theorem append_defined {b : FixedBuffer SIZE} {buf : List UInt8} {len : Nat}
    (h : strlen buf < b.avail) : ∃ b', b.append buf len = some b' := by
  unfold append
  split
  · rename_i hlen
    have hs : (cstr buf ++ [0]).length ≤ b.avail := by
      simp only [List.length_append, List.length_singleton]; exact h
    rw [appendStores, if_pos hlen, write_placed hs, Option.bind_some]
    unfold avail at hlen
    exact ⟨_, dif_pos (by show b.cur + len ≤ SIZE; omega)⟩
  · exact ⟨b, rfl⟩

/-- What a call of `append` can do. -/
theorem append_cases {b b' : FixedBuffer SIZE} {buf : List UInt8} {len : Nat}
    (h : b.append buf len = some b') :
    (b.avail ≤ len ∧ b' = b) ∨
    (len < b.avail ∧ strlen buf < b.avail ∧ b'.cur = b.cur + len ∧
      b'.data = storeAll b.data (placed b.cur (cstr buf ++ [0]))) := by
  unfold append at h
  split at h
  · rename_i hlen
    right
    rw [appendStores, if_pos hlen] at h
    obtain ⟨b1, hw, ha⟩ := Option.bind_eq_some_iff.mp h
    obtain ⟨hin, rfl⟩ := write_eq hw
    obtain ⟨hd, hc⟩ := add_eq ha
    refine ⟨hlen, ?_, hc, hd⟩
    -- the terminator is stored at `cur_ + strlen(buf)`
    obtain ⟨s, hs, e⟩ : ∃ s ∈ placed b.cur (cstr buf ++ [0]), s.1 = b.cur + strlen buf :=
      exists_mem_placed (by omega) (by simp [strlen])
    have := hin s hs
    unfold avail
    omega
  · rename_i hlen
    exact .inl ⟨by omega, (Option.some.inj h).symm⟩

/-- **The effect of `append` on the text.** When `len` reaches at most to the terminator that
`strcpy` stores, an accepted call adds the first `len` bytes of what it stored. -/
theorem append_toString {b b' : FixedBuffer SIZE} {buf : List UInt8} {len : Nat}
    (h : b.append buf len = some b') (hlen : len < b.avail) (hle : len ≤ strlen buf + 1) :
    b'.toString = b.toString ++ (cstr buf ++ [0]).take len := by
  rcases append_cases h with ⟨h', _⟩ | ⟨_, _, hc, hd⟩
  · omega
  · unfold toString length
    rw [hc, hd, load_add, load_below (Nat.le_refl _), Nat.zero_add,
      load_placed (by simpa [strlen] using hle)]

/-- Bytes before the write position are never changed. -/
theorem append_data {b b' : FixedBuffer SIZE} {buf : List UInt8} {len i : Nat}
    (h : b.append buf len = some b') (hi : i < b.length) : b'.data i = b.data i := by
  rcases append_cases h with ⟨_, rfl⟩ | ⟨_, _, _, hd⟩
  · rfl
  · rw [hd, storeAll_placed_of_lt (show i < b.cur from hi)]

theorem append_length {b b' : FixedBuffer SIZE} {buf : List UInt8} {len : Nat}
    (h : b.append buf len = some b') :
    b'.length = if len < b.avail then b.length + len else b.length := by
  rcases append_cases h with ⟨h', rfl⟩ | ⟨h', _, hc, _⟩
  · rw [if_neg (by omega)]
  · rw [if_pos h']; exact hc

end FixedBuffer

end MultiThreadLog
