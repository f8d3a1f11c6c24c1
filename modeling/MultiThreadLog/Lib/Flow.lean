import Mathlib.Data.List.Induction
import Mathlib.Data.List.Perm.Basic

/-!
# Batched FIFO pipelines

Items of any type enter a current group; a full group is queued; a consumer takes everything
queued and the current group as one batch and hands the groups on one after the other. A batch of
more than `limit` groups is cut to its first `keep`, with a note that says how many groups went.

`kept` is what the pipeline holds or has handed on, in order. The rules say that it is a
subsequence of the items put in (`run_kept_sublist`), that what is missing was cut
(`run_perm`), that every cut left one note (`run_notes`), and that without a cut nothing is
missing (`run_kept`).
-/

namespace Flow

variable {α ν : Type}

inductive Entry (α ν : Type) where
  | data (group : List α)
  | note (tag : ν) (dropped : Nat)

namespace Entry

def items : Entry α ν → List α
  | .data group => group
  | .note _ _ => []

def dropped? : Entry α ν → Option Nat
  | .data _ => none
  | .note _ dropped => some dropped

end Entry

structure State (α ν : Type) where
  handed : List (Entry α ν)
  batch : List (List α)
  queued : List (List α)
  current : List α
  /-- The batches that were cut, as they were taken. -/
  shed : List (List (List α))

inductive Op (α ν : Type) where
  | put (a : α)
  | roll
  | take
  | trim (tag : ν)
  | emit

def Op.items : Op α ν → List α
  | .put a => [a]
  | _ => []

/-- Everything put in, in order. -/
def history (ops : List (Op α ν)) : List α := ops.flatMap Op.items

namespace State

def empty : State α ν := ⟨[], [], [], [], []⟩

variable (limit keep : Nat)

def apply (s : State α ν) : Op α ν → State α ν
  | .put a => { s with current := s.current ++ [a] }
  | .roll => { s with queued := s.queued ++ [s.current], current := [] }
  | .take => { s with batch := s.batch ++ s.queued ++ [s.current], queued := [], current := [] }
  | .trim tag =>
    if limit < s.batch.length then
      { s with
        handed := s.handed ++ [.note tag (s.batch.length - keep)]
        batch := s.batch.take keep
        shed := s.shed ++ [s.batch] }
    else s
  | .emit =>
    match s.batch with
    | [] => s
    | group :: batch => { s with handed := s.handed ++ [.data group], batch }

def run (s : State α ν) (ops : List (Op α ν)) : State α ν := ops.foldl (apply limit keep) s

/-- Handed on, then in the batch, then queued, then current. -/
def kept (s : State α ν) : List α :=
  s.handed.flatMap Entry.items ++ s.batch.flatten ++ s.queued.flatten ++ s.current

/-- What lay in the groups that were cut off. -/
def lost (s : State α ν) : List α := s.shed.flatMap fun batch => (batch.drop keep).flatten

/-- Handed on. -/
def delivered (s : State α ν) : List α := s.handed.flatMap Entry.items

/-- Not yet taken into a batch. -/
def waiting (s : State α ν) : List α := s.queued.flatten ++ s.current

def notes (s : State α ν) : List Nat := s.handed.filterMap Entry.dropped?

variable {limit keep} {s : State α ν}

@[simp] theorem run_nil : s.run limit keep [] = s := rfl

theorem run_append (ops ops' : List (Op α ν)) :
    s.run limit keep (ops ++ ops') = (s.run limit keep ops).run limit keep ops' :=
  List.foldl_append ..

theorem kept_eq (s : State α ν) : s.kept = s.delivered ++ s.batch.flatten ++ s.waiting := by
  simp [kept, delivered, waiting]

/-! ## One operation -/

theorem apply_trim_le {tag : ν} (h : s.batch.length ≤ limit) :
    s.apply limit keep (.trim tag) = s := if_neg (Nat.not_lt.mpr h)

theorem apply_trim_lt {tag : ν} (h : limit < s.batch.length) :
    s.apply limit keep (.trim tag) = { s with
      handed := s.handed ++ [.note tag (s.batch.length - keep)]
      batch := s.batch.take keep
      shed := s.shed ++ [s.batch] } := if_pos h

/-- Without a cut an operation only adds its item. -/
theorem apply_kept {op : Op α ν} (h : (s.apply limit keep op).shed = s.shed) :
    (s.apply limit keep op).kept = s.kept ++ op.items := by
  cases op with
  | put a => simp [apply, kept, Op.items]
  | roll => simp [apply, kept, Op.items]
  | take => simp [apply, kept, Op.items]
  | trim tag =>
    rcases Nat.lt_or_ge limit s.batch.length with hlt | hle
    · rw [apply_trim_lt hlt] at h
      simp at h
    · rw [apply_trim_le hle]
      simp [Op.items]
  | emit =>
    obtain ⟨handed, batch, queued, current, shed⟩ := s
    cases batch with
    | nil => simp [apply, kept, Op.items]
    | cons group batch => simp [apply, kept, Op.items, Entry.items]

/-- A cut keeps a subsequence, and keeps together with what it cuts off the same items. -/
theorem cut_kept {tag : ν} (h : limit < s.batch.length) :
    (s.apply limit keep (.trim tag)).kept.Sublist s.kept ∧
      ((s.apply limit keep (.trim tag)).kept ++ (s.apply limit keep (.trim tag)).lost keep).Perm
        (s.kept ++ s.lost keep) := by
  have hbatch : (s.batch.take keep).flatten ++ (s.batch.drop keep).flatten = s.batch.flatten := by
    rw [← List.flatten_append, List.take_append_drop]
  rw [apply_trim_lt h]
  refine ⟨?_, ?_⟩
  · simp only [kept, List.flatMap_append, List.flatMap_cons, List.flatMap_nil, Entry.items,
      List.append_nil, ← hbatch]
    exact (((List.Sublist.refl _).append (List.sublist_append_left _ _)).append
      (List.Sublist.refl _)).append (List.Sublist.refl _)
  · simp only [kept, lost, List.flatMap_append, List.flatMap_cons, List.flatMap_nil, Entry.items,
      List.append_nil, ← hbatch]
    have hcomm : (s.queued.flatten ++ s.current ++
        s.shed.flatMap (fun batch => (batch.drop keep).flatten) ++
        (s.batch.drop keep).flatten).Perm ((s.batch.drop keep).flatten ++
          (s.queued.flatten ++ s.current ++
            s.shed.flatMap fun batch => (batch.drop keep).flatten)) :=
      List.perm_append_comm
    simp only [List.append_assoc] at hcomm ⊢
    exact .append_left _ (.append_left _ hcomm)

/-- Only `take` empties the front of the pipeline. -/
theorem apply_waiting {op : Op α ν} (h : op ≠ .take) :
    (s.apply limit keep op).waiting = s.waiting ++ op.items := by
  cases op with
  | put a => simp [apply, waiting, Op.items]
  | roll => simp [apply, waiting, Op.items]
  | take => exact absurd rfl h
  | trim tag =>
    rcases Nat.lt_or_ge limit s.batch.length with hlt | hle
    · rw [apply_trim_lt hlt]
      simp [waiting, Op.items]
    · rw [apply_trim_le hle]
      simp [Op.items]
  | emit =>
    obtain ⟨handed, batch, queued, current, shed⟩ := s
    cases batch with
    | nil => simp [apply, Op.items]
    | cons group batch => simp [apply, waiting, Op.items]

theorem run_waiting {ops : List (Op α ν)} (h : ∀ op ∈ ops, op ≠ .take) :
    (s.run limit keep ops).waiting = s.waiting ++ history ops := by
  induction ops generalizing s with
  | nil => simp [history]
  | cons op ops ih =>
    show ((s.apply limit keep op).run limit keep ops).waiting = _
    rw [ih fun o ho => h o (List.mem_cons_of_mem _ ho), apply_waiting (h op List.mem_cons_self),
      history, history, List.flatMap_cons, List.append_assoc]

/-- Every operation keeps a subsequence of what was there and its own items, and loses only
what it records as lost. -/
theorem apply_kept_sublist (op : Op α ν) :
    (s.apply limit keep op).kept.Sublist (s.kept ++ op.items) ∧
      ((s.apply limit keep op).kept ++ (s.apply limit keep op).lost keep).Perm
        (s.kept ++ s.lost keep ++ op.items) := by
  have uncut : (s.apply limit keep op).shed = s.shed →
      (s.apply limit keep op).kept.Sublist (s.kept ++ op.items) ∧
        ((s.apply limit keep op).kept ++ (s.apply limit keep op).lost keep).Perm
          (s.kept ++ s.lost keep ++ op.items) := by
    intro h
    rw [apply_kept h, lost, h, List.append_assoc, List.append_assoc]
    exact ⟨.refl _, .append_left _ List.perm_append_comm⟩
  cases op with
  | put a => exact uncut rfl
  | roll => exact uncut rfl
  | take => exact uncut rfl
  | emit =>
    refine uncut ?_
    obtain ⟨handed, batch, queued, current, shed⟩ := s
    cases batch <;> rfl
  | trim tag =>
    rcases Nat.lt_or_ge limit s.batch.length with hlt | hle
    · simpa [Op.items] using cut_kept hlt
    · exact uncut (by rw [apply_trim_le hle])

theorem apply_notes (op : Op α ν)
    (h : s.notes = s.shed.map (fun batch => batch.length - keep) ∧
      ∀ batch ∈ s.shed, limit < batch.length) :
    (s.apply limit keep op).notes =
        (s.apply limit keep op).shed.map (fun batch => batch.length - keep) ∧
      ∀ batch ∈ (s.apply limit keep op).shed, limit < batch.length := by
  cases op with
  | put a => exact h
  | roll => exact h
  | take => exact h
  | emit =>
    obtain ⟨handed, batch, queued, current, shed⟩ := s
    cases batch with
    | nil => exact h
    | cons group batch => simpa [apply, notes, Entry.dropped?, List.filterMap_cons] using h
  | trim tag =>
    rcases Nat.lt_or_ge limit s.batch.length with hlt | hle
    · rw [apply_trim_lt hlt]
      refine ⟨?_, fun batch hb => ?_⟩
      · simpa [notes, Entry.dropped?, List.filterMap_cons] using h.1
      · rcases List.mem_append.mp hb with hb | hb
        · exact h.2 batch hb
        · rw [List.mem_singleton.mp hb]
          exact hlt
    · rw [apply_trim_le hle]
      exact h

theorem mem_lost {a : α} : a ∈ s.lost keep ↔ ∃ batch ∈ s.shed, a ∈ (batch.drop keep).flatten := by
  rw [lost, List.mem_flatMap]

/-! ## Runs -/

variable (limit keep)

/-- **Order**: what is kept is a subsequence of what was put in. -/
theorem run_kept_sublist (ops : List (Op α ν)) :
    ((State.empty : State α ν).run limit keep ops).kept.Sublist (history ops) := by
  induction ops using List.reverseRecOn with
  | nil => exact .refl _
  | append_singleton ops op ih =>
    rw [run_append, history, List.flatMap_append, List.flatMap_cons, List.flatMap_nil,
      List.append_nil]
    exact (apply_kept_sublist op).1.trans (ih.append (.refl _))

/-- **Loss**: what is missing lay in the groups that were cut off. -/
theorem run_perm (ops : List (Op α ν)) :
    (((State.empty : State α ν).run limit keep ops).kept ++
      ((State.empty : State α ν).run limit keep ops).lost keep).Perm (history ops) := by
  induction ops using List.reverseRecOn with
  | nil => exact .refl _
  | append_singleton ops op ih =>
    rw [run_append, history, List.flatMap_append, List.flatMap_cons, List.flatMap_nil,
      List.append_nil]
    exact (apply_kept_sublist op).2.trans (ih.append_right _)

/-- **Notes**: one for each cut, with the number of groups cut off. -/
theorem run_notes (ops : List (Op α ν)) :
    ((State.empty : State α ν).run limit keep ops).notes =
        ((State.empty : State α ν).run limit keep ops).shed.map (fun batch => batch.length - keep) ∧
      ∀ batch ∈ ((State.empty : State α ν).run limit keep ops).shed, limit < batch.length := by
  induction ops using List.reverseRecOn with
  | nil => exact ⟨rfl, fun _ h => nomatch h⟩
  | append_singleton ops op ih =>
    rw [run_append]
    exact apply_notes op ih

/-- An item that is not kept lay in a cut batch, behind its first `keep` groups. -/
theorem mem_shed_of_not_kept {ops : List (Op α ν)} {a : α} (ha : a ∈ history ops)
    (hk : a ∉ ((State.empty : State α ν).run limit keep ops).kept) :
    ∃ batch ∈ ((State.empty : State α ν).run limit keep ops).shed,
      limit < batch.length ∧ a ∈ (batch.drop keep).flatten := by
  rcases List.mem_append.mp ((run_perm limit keep ops).mem_iff.mpr ha) with h | h
  · exact absurd h hk
  · obtain ⟨batch, hb, hmem⟩ := mem_lost.mp h
    exact ⟨batch, hb, (run_notes limit keep ops).2 batch hb, hmem⟩

/-- When no item comes twice, an item is handed on or cut off, or else still on the way. -/
theorem settled_iff {ops : List (Op α ν)} (hn : (history ops).Nodup) {a : α}
    (ha : a ∈ history ops) :
    (a ∈ ((State.empty : State α ν).run limit keep ops).delivered ∨
      a ∈ ((State.empty : State α ν).run limit keep ops).lost keep) ↔
      a ∉ ((State.empty : State α ν).run limit keep ops).batch.flatten ∧
        a ∉ ((State.empty : State α ν).run limit keep ops).waiting := by
  have hperm := run_perm limit keep ops
  have hnodup := hperm.nodup_iff.mpr hn
  have hmem := hperm.mem_iff.mpr ha
  rw [kept_eq] at hnodup hmem
  simp only [List.append_assoc, List.nodup_append, List.mem_append] at hnodup hmem
  obtain ⟨-, ⟨-, ⟨-, -, hwl⟩, hbl⟩, hd⟩ := hnodup
  refine ⟨fun h => ⟨fun hb => ?_, fun hw => ?_⟩, fun ⟨hb, hw⟩ => ?_⟩
  · rcases h with h | h
    · exact hd a h a (.inl hb) rfl
    · exact hbl a hb a (.inr h) rfl
  · rcases h with h | h
    · exact hd a h a (.inr (.inl hw)) rfl
    · exact hwl a hw a h rfl
  · rcases hmem with h | h | h | h
    · exact .inl h
    · exact absurd h hb
    · exact absurd h hw
    · exact .inr h

/-- Without a cut everything put in is kept, in order. -/
theorem run_kept (ops : List (Op α ν))
    (h : ((State.empty : State α ν).run limit keep ops).shed = []) :
    ((State.empty : State α ν).run limit keep ops).kept = history ops := by
  have hsub := run_kept_sublist limit keep ops
  have hperm := run_perm limit keep ops
  rw [lost, h, List.flatMap_nil, List.append_nil] at hperm
  exact hsub.eq_of_length hperm.length_eq

end State

end Flow
