import Mathlib.Data.List.Chain
import Mathlib.Data.Int.Order.Basic
import Mathlib.Order.Lattice

/-!
# Step functions

A step function is a value before the first step and a list of steps, each a key and the value
from there on (`valueAt`). With increasing keys it is determined by where the list splits at the
key (`valueAt_split`).

The second part is about clocks. `off v` is how far a clock is ahead during the value `v`;
`shifted off steps` are the steps by the reading of the clock. When the clock only goes forward,
reading it at `k` and looking the reading up gives the value at `k`. Where a step puts it back
(`SetBack`) the reading occurs twice and the lookup gives the value after the step
(`valueAt_shifted`, `SetBack.valueAt_shifted`). `Spaced` says that the steps are far enough apart
for only one step to matter at a time.
-/

namespace Steps

variable {κ ν : Type}

/-- The value after the steps. -/
def last (init : ν) (steps : List (κ × ν)) : ν := (steps.getLast?.map Prod.snd).getD init

section Last

variable {init : ν} {pre steps : List (κ × ν)} {x : κ × ν}

@[simp] theorem last_nil : last init ([] : List (κ × ν)) = init := rfl

@[simp] theorem last_concat : last init (pre ++ [x]) = x.2 := by
  simp [last]

theorem last_cons : last init (x :: steps) = last x.2 steps := by
  cases steps with
  | nil => rfl
  | cons y steps => simp [last, List.getLast?_eq_some_getLast]

theorem last_of_getLast? (h : x ∈ pre.getLast?) : last init pre = x.2 := by
  rw [last, Option.mem_def.mp h]
  rfl

theorem last_mem : last init steps ∈ init :: steps.map Prod.snd := by
  rcases List.eq_nil_or_concat steps with rfl | ⟨l, x, rfl⟩
  · exact List.mem_cons_self
  · simp [List.concat_eq_append]

/-- A relation of each value to the next holds at every step. -/
theorem rel_last {R : ν → ν → Prop} (h : (init :: (pre ++ x :: steps).map Prod.snd).IsChain R) :
    R (last init pre) x.2 := by
  induction pre generalizing init with
  | nil => exact (List.isChain_cons_cons.mp h).1
  | cons y pre ih =>
    rw [last_cons]
    exact ih (List.isChain_cons_cons.mp h).2

end Last

section Lookup

variable [LinearOrder κ]

/-- The value of the last step at or before `k`, for increasing keys. -/
def valueAt (init : ν) : List (κ × ν) → κ → ν
  | [], _ => init
  | step :: steps, k => if k < step.1 then init else valueAt step.2 steps k

/-- The keys increase. -/
def Sorted (steps : List (κ × ν)) : Prop := steps.IsChain fun x y => x.1 < y.1

variable {init v : ν} {pre post steps : List (κ × ν)} {k : κ}

/-- Before the first step. -/
theorem valueAt_init (h : ∀ x ∈ steps.head?, k < x.1) : valueAt init steps k = init := by
  cases steps with
  | nil => rfl
  | cons x steps => exact if_pos (h x rfl)

/-- Between the steps `pre` and the steps `post`. -/
theorem valueAt_split (hs : Sorted (pre ++ post)) (hpre : ∀ x ∈ pre.getLast?, x.1 ≤ k)
    (hpost : ∀ x ∈ post.head?, k < x.1) : valueAt init (pre ++ post) k = last init pre := by
  induction pre generalizing init with
  | nil => exact valueAt_init hpost
  | cons x pre ih =>
    have hx : x.1 ≤ k := by
      cases hl : pre.getLast? with
      | none => exact hpre x (by rw [List.getLast?_eq_none_iff.mp hl]; rfl)
      | some y =>
        have hsorted : Sorted (x :: pre) := List.IsChain.left_of_append hs
        have hlt : x.1 < y.1 := by
          have hchain := List.isChain_iff_pairwise.mp hsorted
          exact (List.pairwise_cons.mp hchain).1 y (List.mem_of_getLast? hl)
        exact le_of_lt (lt_of_lt_of_le hlt (hpre y (by simp [List.getLast?_cons, hl])))
    have hlast : ∀ y ∈ pre.getLast?, y.1 ≤ k := fun y hy => hpre y (by
      simp [List.getLast?_cons, Option.mem_def.mp hy])
    rw [List.cons_append, valueAt, if_neg (not_lt.mpr hx), ih (List.IsChain.tail hs) hlast,
      last_cons]

/-- Every key is between some steps. -/
theorem exists_split (steps : List (κ × ν)) (k : κ) : ∃ pre post, steps = pre ++ post ∧
    (∀ x ∈ pre.getLast?, x.1 ≤ k) ∧ ∀ x ∈ post.head?, k < x.1 := by
  induction steps with
  | nil => exact ⟨[], [], rfl, nofun, nofun⟩
  | cons x steps ih =>
    by_cases hx : k < x.1
    · exact ⟨[], x :: steps, rfl, nofun, fun y hy => Option.some.inj hy ▸ hx⟩
    · obtain ⟨pre, post, rfl, hpre, hpost⟩ := ih
      refine ⟨x :: pre, post, rfl, fun y hy => ?_, hpost⟩
      cases hl : pre.getLast? with
      | none =>
        rw [List.getLast?_eq_none_iff.mp hl] at hy
        exact Option.some.inj hy ▸ not_lt.mp hx
      | some z =>
        rw [Option.mem_def, List.getLast?_cons, hl] at hy
        exact hpre y (hl.trans hy)

theorem valueAt_map {ν' : Type} (f : ν → ν') :
    valueAt (f init) (steps.map fun x => (x.1, f x.2)) k = f (valueAt init steps k) := by
  induction steps generalizing init with
  | nil => rfl
  | cons x steps ih =>
    rw [List.map_cons, valueAt, valueAt, ih]
    split <;> rfl

end Lookup

/-! ## Clocks -/

section Clock

variable (off : ν → Int)

/-- The steps by the reading of the clock. -/
def shifted (steps : List (Int × ν)) : List (Int × ν) := steps.map fun x => (x.1 + off x.2, x.2)

/-- Only one step matters at a time: the clock's readings increase with the steps, and what a step
puts the clock back is over before the next. -/
structure Spaced (init : ν) (steps : List (Int × ν)) : Prop where
  sorted : Sorted steps
  shifted : Sorted (shifted off steps)
  wide : ∀ pre x y post, steps = pre ++ x :: y :: post →
    x.1 + off (last init pre) ≤ y.1 + off y.2 ∧ x.1 + off (last init pre) ≤ y.1 + off x.2

/-- The step `x` puts the clock back, and `k` is in the time before it whose readings come again. -/
structure SetBack (init : ν) (pre : List (Int × ν)) (x : Int × ν) (k : Int) : Prop where
  before : k < x.1
  again : x.1 + off x.2 ≤ k + off (last init pre)

variable {off} {init : ν} {pre post steps : List (Int × ν)} {x : Int × ν} {k : Int}

theorem last_shifted : last init (Steps.shifted off pre) = last init pre := by
  rw [last, last, Steps.shifted, List.getLast?_map, Option.map_map]
  rfl

theorem getLast?_shifted (h : x ∈ (Steps.shifted off pre).getLast?) :
    ∃ y ∈ pre.getLast?, x = (y.1 + off y.2, y.2) := by
  rw [Steps.shifted, List.getLast?_map] at h
  obtain ⟨y, hy, e⟩ := Option.map_eq_some_iff.mp h
  exact ⟨y, hy, e.symm⟩

theorem head?_shifted (h : x ∈ (Steps.shifted off post).head?) :
    ∃ y ∈ post.head?, x = (y.1 + off y.2, y.2) := by
  rw [Steps.shifted, List.head?_map] at h
  obtain ⟨y, hy, e⟩ := Option.map_eq_some_iff.mp h
  exact ⟨y, hy, e.symm⟩

theorem shifted_append : Steps.shifted off (pre ++ post) =
    Steps.shifted off pre ++ Steps.shifted off post := List.map_append

/-- The clock's readings increase if they do from each step to the next. -/
theorem Spaced.of_neighbours
    (h : ∀ pre x y post, steps = pre ++ x :: y :: post →
      x.1 < y.1 ∧ x.1 + off x.2 < y.1 + off y.2 ∧
      x.1 + off (last init pre) ≤ y.1 + off y.2 ∧ x.1 + off (last init pre) ≤ y.1 + off x.2) :
    Spaced off init steps where
  sorted := List.isChain_iff_forall_rel_of_append_cons_cons.mpr fun _ _ _ _ e => (h _ _ _ _ e).1
  shifted := (List.isChain_map _).mpr
    (List.isChain_iff_forall_rel_of_append_cons_cons.mpr fun _ _ _ _ e => (h _ _ _ _ e).2.1)
  wide _ _ _ _ e := (h _ _ _ _ e).2.2

/-- The readings at two neighbouring steps. -/
theorem Spaced.readings (h : Spaced off init steps) (hs : steps = pre ++ x :: post) {y : Int × ν}
    (hy : y ∈ pre.getLast?) : y.1 + off y.2 < x.1 + off x.2 := by
  have hsh := h.shifted
  rw [hs, shifted_append] at hsh
  refine (List.isChain_append.mp hsh).2.2 (y.1 + off y.2, y.2) ?_ (x.1 + off x.2, x.2) rfl
  rw [Option.mem_def, Steps.shifted, List.getLast?_map, Option.mem_def.mp hy]
  rfl

/-- Before a step that puts the clock back the value is the one before the step. -/
theorem SetBack.valueAt (hb : SetBack off init pre x k) (h : Spaced off init steps)
    (hs : steps = pre ++ x :: post) : valueAt init steps k = last init pre := by
  have hsorted := h.sorted
  subst hs
  refine valueAt_split hsorted (fun y hy => ?_) fun y hy => Option.some.inj hy ▸ hb.before
  have hlt := h.readings rfl hy
  have hk := hb.again
  rw [last_of_getLast? hy] at hk
  omega

/-- There the reading is looked up as one after the step. -/
theorem SetBack.valueAt_shifted (hb : SetBack off init pre x k) (h : Spaced off init steps)
    (hs : steps = pre ++ x :: post) :
    Steps.valueAt init (Steps.shifted off steps) (k + off (last init pre)) = x.2 := by
  have hsh := h.shifted
  have hk := hb.before
  have hs' : steps = (pre ++ [x]) ++ post := by rw [hs, List.append_assoc]; rfl
  rw [hs', shifted_append] at hsh ⊢
  rw [valueAt_split hsh, last_shifted, last_concat]
  · intro z hz
    obtain ⟨y, hy, rfl⟩ := getLast?_shifted hz
    rw [List.getLast?_concat, Option.mem_some_iff] at hy
    subst hy
    exact hb.again
  · intro z hz
    obtain ⟨y, hy, rfl⟩ := head?_shifted hz
    obtain ⟨post', rfl⟩ := List.head?_eq_some_iff.mp hy
    have := (h.wide pre x y post' hs).1
    simp only
    omega

/-- What the step adds to the clock is over before the next step. -/
theorem SetBack.valueAt_after (h : Spaced off init steps) (hs : steps = pre ++ x :: post)
    {r : Int} (hr : x.1 ≤ r) (hr' : r < x.1 + off (last init pre) - off x.2) :
    Steps.valueAt init steps r = x.2 := by
  have hsorted := h.sorted
  have hs' : steps = (pre ++ [x]) ++ post := by rw [hs, List.append_assoc]; rfl
  rw [hs'] at hsorted ⊢
  rw [valueAt_split hsorted, last_concat]
  · intro y hy
    rw [List.getLast?_concat, Option.mem_some_iff] at hy
    exact hy ▸ hr
  · intro y hy
    obtain ⟨post', rfl⟩ := List.head?_eq_some_iff.mp hy
    have := (h.wide pre x y post' hs).2
    omega

/-- **Looking a reading up** gives the value at the time of the reading, unless the clock is about
to be put back to before that reading. -/
theorem valueAt_shifted (h : Spaced off init steps) (k : Int) :
    Steps.valueAt init (Steps.shifted off steps) (k + off (Steps.valueAt init steps k)) =
      Steps.valueAt init steps k ∨
    ∃ pre x post, steps = pre ++ x :: post ∧ SetBack off init pre x k := by
  obtain ⟨pre, post, rfl, hpre, hpost⟩ := exists_split steps k
  have hsh := h.shifted
  rw [valueAt_split h.sorted hpre hpost]
  by_cases hnext : ∀ y ∈ post.head?, k + off (last init pre) < y.1 + off y.2
  · left
    rw [shifted_append] at hsh ⊢
    rw [valueAt_split hsh, last_shifted]
    · intro z hz
      obtain ⟨y, hy, rfl⟩ := getLast?_shifted hz
      have := hpre y hy
      rw [last_of_getLast? hy]
      simp only
      omega
    · intro z hz
      obtain ⟨y, hy, rfl⟩ := head?_shifted hz
      exact hnext y hy
  · right
    push Not at hnext
    obtain ⟨x, hx, hagain⟩ := hnext
    obtain ⟨post', rfl⟩ := List.head?_eq_some_iff.mp hx
    exact ⟨pre, x, post', rfl, hpost x rfl, hagain⟩

/-- The value that the lookup of a reading gives is the one at the time it is taken for. -/
theorem valueAt_reading (h : Spaced off init steps) {v w : ν} (hv : Steps.valueAt init steps k = v)
    (hw : Steps.valueAt init (Steps.shifted off steps) (k + off v) = w) :
    Steps.valueAt init steps (k + off v - off w) = w := by
  rcases valueAt_shifted h k with hsame | ⟨pre, x, post, hs, hb⟩
  · rw [hv, hw] at hsame
    rw [hsame, Int.add_sub_cancel, hv]
  · obtain rfl := (hb.valueAt h hs).symm.trans hv
    obtain rfl := (hb.valueAt_shifted h hs).symm.trans hw
    have := hb.before
    have := hb.again
    exact SetBack.valueAt_after h hs (by omega) (by omega)

end Clock

end Steps
