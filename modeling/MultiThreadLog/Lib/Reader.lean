import Mathlib.Algebra.Group.Nat.Defs
import Mathlib.Data.List.Basic

/-!
# Reading a binary file

A `Reader δ` reads bytes from the front of what is left of a file and fills an object of type `δ`
on the way. It may throw, with the text of the exception, after which the object keeps what it has
got; it may have undefined behaviour, and then has no outcome.

`Runs p s a t` says that `p` returns `a` and takes `s` to `t`, `Stuck p s` that its behaviour from
`s` is undefined. `Reads p enc upd` is the specification of a reader of one encoding: it accepts
exactly the inputs that begin with `enc a` for the value `a` it returns. It is an equivalence, so
the same rule is used to show what a reader does on an encoded value (`Reads.run`) and that what it
accepted is one (`Reads.accepted`).
-/

namespace Reader

structure State (δ : Type) where
  input : List UInt8
  data : δ

end Reader

abbrev Reader (δ α : Type) := ExceptT String (StateT (Reader.State δ) Option) α

namespace Reader

variable {δ α β : Type}

/-- `fread`: at most `n` bytes, fewer at the end of the file. -/
def fread (n : Nat) : Reader δ (List UInt8) := fun s =>
  some (.ok (s.input.take n), { s with input := s.input.drop n })

def undefined : Reader δ α := fun _ => none

def getData : Reader δ δ := fun s => some (.ok s.data, s)

def modifyData (f : δ → δ) : Reader δ Unit := fun s => some (.ok (), { s with data := f s.data })

/-- A loop that reads `n` values. -/
def times : Nat → Reader δ α → Reader δ (List α)
  | 0, _ => pure []
  | n + 1, p => do
    let a ← p
    let as ← times n p
    return a :: as

/-! ## Runs -/

def Runs (p : Reader δ α) (s : State δ) (a : α) (t : State δ) : Prop :=
  p.run.run s = some (.ok a, t)

variable {p : Reader δ α} {f : α → Reader δ β} {s t u : State δ} {a : α} {b : β} {n : Nat}

@[simp] theorem runs_pure {a' : α} : Runs (pure a) s a' t ↔ a' = a ∧ t = s := by
  show some (Except.ok a, s) = some (.ok a', t) ↔ _
  simp [eq_comm]

@[simp] theorem runs_bind : Runs (p >>= f) s b t ↔ ∃ a u, Runs p s a u ∧ Runs (f a) u b t := by
  constructor
  · intro h
    obtain ⟨⟨r, u⟩, hp, h⟩ := Option.bind_eq_some_iff.mp h
    cases r with
    | error e => cases h
    | ok a => exact ⟨a, u, hp, h⟩
  · rintro ⟨a, u, hp, hf⟩
    exact Option.bind_eq_some_iff.mpr ⟨(.ok a, u), hp, hf⟩

@[simp] theorem runs_throw {e : String} : ¬ Runs (throw e : Reader δ α) s a t := by
  intro h
  cases h

@[simp] theorem runs_undefined : ¬ Runs (undefined : Reader δ α) s a t := by
  intro h
  cases h

@[simp] theorem runs_fread {bytes : List UInt8} :
    Runs (fread n) s bytes t ↔ bytes = s.input.take n ∧ t = ⟨s.input.drop n, s.data⟩ := by
  show some (Except.ok (s.input.take n), State.mk (s.input.drop n) s.data) = some (.ok bytes, t) ↔ _
  simp [eq_comm]

@[simp] theorem runs_getData {d : δ} : Runs getData s d t ↔ d = s.data ∧ t = s := by
  show some (Except.ok s.data, s) = some (.ok d, t) ↔ _
  simp [eq_comm]

@[simp] theorem runs_modifyData {f : δ → δ} {x : Unit} :
    Runs (modifyData f) s x t ↔ t = ⟨s.input, f s.data⟩ := by
  show some (Except.ok (), State.mk s.input (f s.data)) = some (.ok x, t) ↔ _
  simp [eq_comm]

/-- The behaviour is undefined. -/
def Stuck (p : Reader δ α) (s : State δ) : Prop := p.run.run s = none

theorem stuck_undefined : Stuck (undefined : Reader δ α) s := rfl

theorem Stuck.bind (h : Stuck p s) : Stuck (p >>= f) s := by
  show Option.bind (p.run.run s) _ = none
  rw [show p.run.run s = none from h]
  rfl

theorem Runs.stuck_bind (h : Runs p s a u) (hf : Stuck (f a) u) : Stuck (p >>= f) s := by
  show Option.bind (p.run.run s) _ = none
  rw [show p.run.run s = _ from h]
  exact hf

/-- `fread` gives `n` bytes exactly if the file begins with them. -/
theorem fread_full {bytes : List UInt8} :
    (bytes = s.input.take n ∧ t = ⟨s.input.drop n, s.data⟩) ∧ bytes.length = n ↔
      bytes.length = n ∧ s.input = bytes ++ t.input ∧ t.data = s.data := by
  constructor
  · rintro ⟨⟨rfl, rfl⟩, hn⟩
    exact ⟨hn, (List.take_append_drop n s.input).symm, rfl⟩
  · rintro ⟨hn, hs, hd⟩
    obtain ⟨input, data⟩ := t
    simp only at hs hd
    subst hd
    rw [hs, List.take_left' hn, List.drop_left' hn]
    exact ⟨⟨rfl, rfl⟩, hn⟩

/-! ## Encodings -/

/-- `p` reads `enc a`, returns `a` and changes the object by `upd a`. -/
def Reads (p : Reader δ α) (enc : α → List UInt8) (upd : α → δ → δ) : Prop :=
  ∀ s a t, Runs p s a t ↔ s.input = enc a ++ t.input ∧ t.data = upd a s.data

variable {enc : α → List UInt8} {upd : α → δ → δ}

theorem Reads.run (h : Reads p enc upd) (a : α) (rest : List UInt8) (d : δ) :
    Runs p ⟨enc a ++ rest, d⟩ a ⟨rest, upd a d⟩ :=
  (h _ a _).mpr ⟨rfl, rfl⟩

theorem Reads.accepted (h : Reads p enc upd) (hr : Runs p s a t) :
    s.input = enc a ++ t.input ∧ t.data = upd a s.data :=
  (h s a t).mp hr

/-- **A loop reads the encodings one after the other.** -/
theorem Reads.times (h : Reads p enc upd) {as : List α} :
    Runs (times n p) s as t ↔ as.length = n ∧ s.input = as.flatMap enc ++ t.input ∧
      t.data = as.foldl (fun d a => upd a d) s.data := by
  induction n generalizing s as with
  | zero =>
    rw [Reader.times, runs_pure]
    constructor
    · rintro ⟨rfl, rfl⟩
      exact ⟨rfl, rfl, rfl⟩
    · rintro ⟨hn, hs, hd⟩
      obtain rfl := List.length_eq_zero_iff.mp hn
      obtain ⟨input, data⟩ := t
      exact ⟨rfl, by rw [show input = s.input from hs.symm, show data = s.data from hd]⟩
  | succ n ih =>
    rw [Reader.times]
    simp only [runs_bind, runs_pure]
    constructor
    · rintro ⟨a, u, ha, as, v, has, rfl, rfl⟩
      obtain ⟨hu, hud⟩ := h.accepted ha
      obtain ⟨hn, hs, hd⟩ := ih.mp has
      refine ⟨by rw [List.length_cons, hn], ?_, by rw [hd, hud, List.foldl_cons]⟩
      rw [hu, hs, List.flatMap_cons, List.append_assoc]
    · rintro ⟨hn, hs, hd⟩
      cases as with
      | nil => cases hn
      | cons a as =>
        rw [List.flatMap_cons, List.append_assoc] at hs
        refine ⟨a, ⟨as.flatMap enc ++ t.input, upd a s.data⟩, (h s a _).mpr ⟨hs, rfl⟩, as, t,
          ih.mpr ⟨Nat.succ.inj hn, rfl, hd⟩, rfl, rfl⟩

/-! ## Big-endian words -/

def be32 (x : UInt32) : List UInt8 :=
  [(x.toNat / 2 ^ 24).toUInt8, (x.toNat / 2 ^ 16).toUInt8, (x.toNat / 2 ^ 8).toUInt8,
    x.toNat.toUInt8]

/-- The number that the bytes spell, the first byte being the highest. -/
def ofBe (bytes : List UInt8) : Nat := bytes.foldl (fun x b => 256 * x + b.toNat) 0

theorem length_be32 (x : UInt32) : (be32 x).length = 4 := rfl

theorem ofBe_be32 (x : UInt32) : (ofBe (be32 x)).toUInt32 = x := by
  have hx := x.toNat_lt
  apply UInt32.toNat.inj
  simp only [ofBe, be32, List.foldl_cons, List.foldl_nil, Nat.toUInt8, Nat.toUInt32,
    UInt8.toNat_ofNat', UInt32.toNat_ofNat']
  omega

theorem be32_ofBe {bytes : List UInt8} (h : bytes.length = 4) :
    be32 (ofBe bytes).toUInt32 = bytes := by
  match bytes, h with
  | [b0, b1, b2, b3], _ =>
    have h0 := b0.toNat_lt
    have h1 := b1.toNat_lt
    have h2 := b2.toNat_lt
    have h3 := b3.toNat_lt
    simp only [be32, ofBe, List.foldl_cons, List.foldl_nil, Nat.toUInt32, UInt32.toNat_ofNat',
      List.cons.injEq, and_true]
    refine ⟨?_, ?_, ?_, ?_⟩ <;> apply UInt8.toNat.inj <;>
      simp only [Nat.toUInt8, UInt8.toNat_ofNat'] <;> omega

end Reader
