import Mathlib.Data.List.TakeWhile

/-!
# Bytes, C strings and stores

A readable pointer is the list of the bytes from it on, with a NUL directly after the list: so
every pointer has a C string, the bytes before the first NUL (`cstr`, `strlen`). A memory is a
function from offsets; `storeAll` performs a list of stores in order, `placed o bs` is the list
of stores that writes `bs` from offset `o` up, and `load` reads a range back. A load of a range
that was just written gives the written bytes (`load_placed`), every other byte is kept
(`storeAll_placed_of_lt`).
-/

namespace Bytes

/-- The bytes of an ASCII literal. -/
def ascii (s : String) : List UInt8 := s.toList.map fun c => c.toNat.toUInt8

/-- On a literal the test is a computation. -/
theorem ne_zero_of_all {p : List UInt8} (h : p.all (· ≠ 0) = true) : ∀ b ∈ p, b ≠ 0 := by
  simpa using h

/-- The C string at a pointer. -/
def cstr (p : List UInt8) : List UInt8 := p.takeWhile (· ≠ 0)

def strlen (p : List UInt8) : Nat := (cstr p).length

theorem cstr_isPrefix (p : List UInt8) : cstr p <+: p := List.takeWhile_prefix _

theorem strlen_le (p : List UInt8) : strlen p ≤ p.length := (cstr_isPrefix p).length_le

/-- A list without NUL is its own C string. -/
theorem cstr_eq_self {p : List UInt8} (h : ∀ b ∈ p, b ≠ 0) : cstr p = p := by
  unfold cstr
  rw [List.takeWhile_eq_self_iff]
  simpa using h

theorem cstr_eq_take (p : List UInt8) : cstr p = p.take (strlen p) :=
  List.prefix_iff_eq_take.mp (cstr_isPrefix p)

/-! ## Stores -/

section Stores

variable {β : Type}

/-- One store: the byte at offset `s.1` becomes `s.2`. -/
def store (m : Nat → β) (s : Nat × β) : Nat → β := fun i => if i = s.1 then s.2 else m i

def storeAll (m : Nat → β) (ss : List (Nat × β)) : Nat → β := ss.foldl store m

/-- The stores that write `bs` from offset `o` up. -/
def placed (o : Nat) (bs : List β) : List (Nat × β) := (List.range' o bs.length).zip bs

/-- The `n` bytes from offset `o`. -/
def load (m : Nat → β) (o n : Nat) : List β := (List.range' o n).map m

@[simp] theorem placed_nil (o : Nat) : placed o ([] : List β) = [] := rfl

theorem placed_cons (o : Nat) (b : β) (bs : List β) :
    placed o (b :: bs) = (o, b) :: placed (o + 1) bs := by
  simp [placed, List.range'_succ]

theorem placed_fst (o : Nat) (bs : List β) :
    (placed o bs).map Prod.fst = List.range' o bs.length := by
  simp [placed, List.map_fst_zip]

/-- The offsets `bs` is stored at. -/
theorem mem_placed {o : Nat} {bs : List β} {s : Nat × β} (h : s ∈ placed o bs) :
    o ≤ s.1 ∧ s.1 < o + bs.length := by
  have : s.1 ∈ List.range' o bs.length := placed_fst o bs ▸ List.mem_map_of_mem h
  simpa using this

/-- Every offset of the range is stored at. -/
theorem exists_mem_placed {o i : Nat} {bs : List β} (h1 : o ≤ i) (h2 : i < o + bs.length) :
    ∃ s ∈ placed o bs, s.1 = i := by
  have : i ∈ (placed o bs).map Prod.fst := by rw [placed_fst]; simp [h1, h2]
  simpa using this

theorem storeAll_append (m : Nat → β) (ss ss' : List (Nat × β)) :
    storeAll m (ss ++ ss') = storeAll (storeAll m ss) ss' := List.foldl_append

/-- An offset no store goes to keeps its byte. -/
theorem storeAll_of_ne {m : Nat → β} {ss : List (Nat × β)} {i : Nat} (h : ∀ s ∈ ss, s.1 ≠ i) :
    storeAll m ss i = m i := by
  induction ss generalizing m with
  | nil => rfl
  | cons s ss ih =>
    rw [storeAll, List.foldl_cons, ← storeAll, ih fun t ht => h t (List.mem_cons_of_mem _ ht),
      store, if_neg (Ne.symm (h s List.mem_cons_self))]

theorem storeAll_placed_of_lt {m : Nat → β} {o i : Nat} {bs : List β} (h : i < o) :
    storeAll m (placed o bs) i = m i :=
  storeAll_of_ne fun _ hs => by have := mem_placed hs; omega

theorem storeAll_placed_add {m : Nat → β} {o i : Nat} {bs : List β} (h : i < bs.length) :
    storeAll m (placed o bs) (o + i) = bs[i] := by
  induction bs generalizing m o i with
  | nil => simp at h
  | cons b bs ih =>
    rw [placed_cons, storeAll, List.foldl_cons, ← storeAll]
    cases i with
    | zero => rw [storeAll_placed_of_lt (by omega)]; simp [store]
    | succ i =>
      rw [show o + (i + 1) = o + 1 + i by omega, ih (by simpa using h)]
      rfl

/-! ## Loads -/

@[simp] theorem load_length (m : Nat → β) (o n : Nat) : (load m o n).length = n := by simp [load]

@[simp] theorem load_zero (m : Nat → β) (o : Nat) : load m o 0 = [] := rfl

theorem load_congr {m m' : Nat → β} {o n : Nat} (h : ∀ i, o ≤ i → i < o + n → m i = m' i) :
    load m o n = load m' o n := by
  apply List.map_congr_left
  intro i hi
  rw [List.mem_range'_1] at hi
  exact h i hi.1 hi.2

theorem load_add (m : Nat → β) (o n k : Nat) :
    load m o (n + k) = load m o n ++ load m (o + n) k := by
  rw [load, load, load, ← List.map_append, List.range'_append_1]

theorem load_take {m : Nat → β} {o n k : Nat} (h : k ≤ n) : (load m o n).take k = load m o k := by
  obtain ⟨d, rfl⟩ := Nat.exists_eq_add_of_le h
  rw [load_add, List.take_append_of_le_length (by simp), List.take_of_length_le (by simp)]

/-- **Read back.** A load inside the range just written gives the bytes written there. -/
theorem load_placed {m : Nat → β} {o n : Nat} {bs : List β} (h : n ≤ bs.length) :
    load (storeAll m (placed o bs)) o n = bs.take n := by
  apply List.ext_getElem (by simp; omega)
  intro i h1 h2
  have hi : i < bs.length := by simp at h1; omega
  simp [load, storeAll_placed_add hi]

theorem load_below {m : Nat → β} {o n : Nat} {bs : List β} (h : n ≤ o) :
    load (storeAll m (placed o bs)) 0 n = load m 0 n :=
  load_congr fun _ _ hi => storeAll_placed_of_lt (by omega)

/-! ## Stores that leave a text behind -/

/-- The stores `ss` leave the text `t` at offset `o`, using at most the byte after it besides. -/
structure Renders (o : Nat) (ss : List (Nat × β)) (t : List β) : Prop where
  lo : ∀ s ∈ ss, o ≤ s.1
  hi : ∀ s ∈ ss, s.1 ≤ o + t.length
  text : ∀ m, load (storeAll m ss) o t.length = t

/-- A text with its terminator. -/
theorem renders_placed (o : Nat) (t : List β) (c : β) : Renders o (placed o (t ++ [c])) t where
  lo _ hs := (mem_placed hs).1
  hi _ hs := by have := (mem_placed hs).2; simp at this; omega
  text m := by rw [load_placed (by simp), List.take_left]

/-- Overwriting a rendered text by one of the same length. -/
theorem Renders.overwrite {o : Nat} {ss : List (Nat × β)} {t u : List β} (h : Renders o ss t)
    (hlen : u.length = t.length) : Renders o (ss ++ placed o u) u where
  lo s hs := by
    rcases List.mem_append.mp hs with hs | hs
    · exact h.lo s hs
    · exact (mem_placed hs).1
  hi s hs := by
    rcases List.mem_append.mp hs with hs | hs
    · rw [hlen]; exact h.hi s hs
    · have := (mem_placed hs).2; omega
  text m := by rw [storeAll_append, load_placed (Nat.le_refl _), List.take_length]

/-- A text written in front of a rendered one. -/
theorem Renders.cons {o : Nat} {ss : List (Nat × β)} {p t : List β}
    (h : Renders (o + p.length) ss t) : Renders o (placed o p ++ ss) (p ++ t) where
  lo s hs := by
    rcases List.mem_append.mp hs with hs | hs
    · exact (mem_placed hs).1
    · have := h.lo s hs; omega
  hi s hs := by
    rw [List.length_append]
    rcases List.mem_append.mp hs with hs | hs
    · have := (mem_placed hs).2; omega
    · have := h.hi s hs; omega
  text m := by
    have hp : load (storeAll (storeAll m (placed o p)) ss) o p.length = p := by
      have hk : load (storeAll (storeAll m (placed o p)) ss) o p.length =
          load (storeAll m (placed o p)) o p.length :=
        load_congr fun i _ hi => storeAll_of_ne fun s hs => by have := h.lo s hs; omega
      rw [hk, load_placed (Nat.le_refl _), List.take_length]
    rw [List.length_append, load_add, storeAll_append, hp, h.text]

end Stores

end Bytes
