import Mathlib.Data.List.Count
import MultiThreadLog.LogFile.Basic

/-!
# How late a roll can come

Runs of `append` alone, where all clock readings of one call are the same second and the seconds
never decrease. `isNeedRollFile` looks at the day only when `count_` wraps, and `rollFile` can be
refused, so a file may outgrow `rollSize_` or take messages of a later day. `Bounded` couples the
two: an oversized file was opened in the present second, and the messages of a later day in the
current file are at most `count_`, since each of them moved the counter.
-/

namespace MultiThreadLog

open Bytes

namespace LogFile

/-- One call of `append`, all of it in the second `now`. -/
structure Write where
  logline : List UInt8
  len : Nat
  answers : List FwriteResult
  now : Int

section Run

variable (proc : Process)

def write (l : LogFile) (w : Write) : Option LogFile :=
  l.append proc w.logline w.len w.answers w.now w.now

/-- The file a message of a later UTC day than the file's own goes into, as its position among
the opened files. -/
def lateWrite (l : LogFile) (w : Write) : List Nat :=
  if l.startOfPeriod / 86400 < w.now / 86400 then [l.closed.length] else []

/-- All late writes of a run. -/
def lateWrites : LogFile → List Write → List Nat
  | _, [] => []
  | l, w :: ws => lateWrite l w ++ ((write proc l w).map fun l' => lateWrites l' ws).getD []

/-- The second of the last call, `t0` before the first. -/
def lastSecond (t0 : Int) (ws : List Write) : Int := ((ws.map Write.now).getLast?).getD t0

end Run

variable {proc : Process} {l l' : LogFile} {f : AppendFile} {w : Write} {late : List Nat}
  {rollSize checkEveryN t : Int}

theorem lateWrites_snoc {ws : List Write} (h : Lts.exec (write proc) l ws = some l') :
    lateWrites proc l (ws ++ [w]) = lateWrites proc l ws ++ lateWrite l' w := by
  induction ws generalizing l with
  | nil =>
    cases h
    cases hw : write proc l' w <;> simp [lateWrites, hw]
  | cons v ws ih =>
    obtain ⟨u, hu, h⟩ := Lts.exec_cons h
    simp only [List.cons_append, lateWrites, hu, Option.map_some, Option.getD_some, ih h,
      List.append_assoc]

/-! ## Days -/

theorem periodOf_eq {a : Int} (ha : 0 < a) : periodOf a = 86400 * (a / 86400) := by
  have hk : kRollPerSeconds = 86400 := rfl
  unfold periodOf
  rw [hk, Int.tdiv_eq_ediv_of_nonneg (by omega)]
  omega

theorem periodOf_le {a b : Int} (ha : 0 < a) (h : a ≤ b) : periodOf a ≤ periodOf b := by
  rw [periodOf_eq ha, periodOf_eq (by omega)]
  omega

/-- A later day is a later period. -/
theorem day_lt_iff {a b : Int} (ha : 0 < a) (hb : 0 < b) :
    periodOf a / 86400 < b / 86400 ↔ periodOf a < periodOf b := by
  rw [periodOf_eq ha, periodOf_eq hb]
  omega

/-! ## The invariant -/

/-- In the second `t`, after the late writes `late`. -/
structure Bounded (rollSize checkEveryN t : Int) (late : List Nat) (l : LogFile) : Prop where
  params : l.rollSize = rollSize ∧ l.checkEveryN = checkEveryN
  file : ∃ f, l.file = some f ∧ f.created = l.lastRoll ∧
    ((f.writenBytes : Int) ≤ rollSize ∨ t = l.lastRoll)
  period : l.startOfPeriod = periodOf l.lastRoll
  clock : 0 < l.lastRoll ∧ l.lastRoll ≤ t
  count : 0 ≤ l.count ∧ l.count < max 1 checkEveryN
  current : (late.count l.closed.length : Int) ≤ l.count
  day : late.count l.closed.length = 0 ∨ l.startOfPeriod < periodOf t
  next : ∀ i, l.closed.length < i → late.count i = 0
  bound : ∀ i, (late.count i : Int) ≤ max 1 checkEveryN

/-- The counters of the late writes after one more. -/
theorem Bounded.count_lateWrite (h : Bounded rollSize checkEveryN t late l) (ht : t ≤ w.now)
    (i : Nat) : (late ++ lateWrite l w).count i =
      late.count i + if l.startOfPeriod < periodOf w.now ∧ l.closed.length = i then 1 else 0 := by
  obtain ⟨hpos, hle⟩ := h.clock
  have hday := day_lt_iff hpos (show 0 < w.now by omega)
  rw [← h.period] at hday
  unfold lateWrite
  rw [List.count_append]
  by_cases hlate : l.startOfPeriod < periodOf w.now
  · rw [if_pos (hday.mpr hlate)]
    simp [hlate, List.count_singleton]
  · rw [if_neg fun hlt => hlate (hday.mp hlt)]
    simp [hlate]

/-- What one more write leaves of the invariant while the file stays open: the late writes in it
are at most one more than before, and only in a later day. -/
structure Writing (rollSize checkEveryN t : Int) (late : List Nat) (l : LogFile) (f : AppendFile) :
    Prop where
  params : l.rollSize = rollSize ∧ l.checkEveryN = checkEveryN
  file : l.file = some f
  created : f.created = l.lastRoll
  period : l.startOfPeriod = periodOf l.lastRoll
  clock : 0 < l.lastRoll ∧ l.lastRoll ≤ t
  count : 0 ≤ l.count ∧ l.count < max 1 checkEveryN
  current : (late.count l.closed.length : Int) ≤ l.count + 1
  same : periodOf t = l.startOfPeriod → late.count l.closed.length = 0
  day : late.count l.closed.length = 0 ∨ l.startOfPeriod < periodOf t
  next : ∀ i, l.closed.length < i → late.count i = 0
  bound : ∀ i, (late.count i : Int) ≤ max 1 checkEveryN

theorem Bounded.writing (h : Bounded rollSize checkEveryN t late l) (ht : t ≤ w.now)
    (hf : l.file = some f) (f1 : AppendFile) (hf1 : f1.created = f.created) :
    Writing rollSize checkEveryN w.now (late ++ lateWrite l w) { l with file := some f1 } f1 := by
  obtain ⟨hpos, hle⟩ := h.clock
  obtain ⟨hc0, hc1⟩ := h.count
  have hcur := h.current
  have hday : periodOf t ≤ periodOf w.now := periodOf_le (by omega) ht
  have hcreated : f.created = l.lastRoll := by
    obtain ⟨f', hf', e, -⟩ := h.file
    rw [hf] at hf'
    cases hf'
    exact e
  refine ⟨h.params, rfl, hf1.trans hcreated, h.period, ⟨hpos, Int.le_trans hle ht⟩, h.count,
    ?_, ?_, ?_, ?_, ?_⟩
  · rw [h.count_lateWrite ht]
    split <;> push_cast <;> omega
  · intro hsame
    replace hsame : periodOf w.now = l.startOfPeriod := hsame
    rw [h.count_lateWrite ht, if_neg (by omega)]
    rcases h.day with hz | hlate <;> omega
  · rw [h.count_lateWrite ht]
    by_cases hlate : l.startOfPeriod < periodOf w.now
    · exact .inr hlate
    · rw [if_neg (fun hc => hlate hc.1)]
      rcases h.day with hz | hlt
      · exact .inl hz
      · exact absurd (by omega) hlate
  · intro i hi
    replace hi : l.closed.length < i := hi
    rw [h.count_lateWrite ht, h.next i hi, if_neg (by omega)]
  · intro i
    rw [h.count_lateWrite ht]
    have := h.bound i
    split
    · rename_i hc
      rw [← hc.2]
      omega
    · push_cast
      omega

/-- The file stays open: its size is in bounds or its second is the present one, and the counter
covers the late writes. -/
theorem Writing.stay (h : Writing rollSize checkEveryN t late l f) (l2 : LogFile) (f2 : AppendFile)
    (hl : l2 = { l with count := l2.count, lastFlush := l2.lastFlush, file := some f2 })
    (hf2 : f2.created = f.created) (hsize : (f2.writenBytes : Int) ≤ rollSize ∨ t = l.lastRoll)
    (hcount : 0 ≤ l2.count ∧ l2.count < max 1 checkEveryN)
    (hcur : (late.count l.closed.length : Int) ≤ l2.count) :
    Bounded rollSize checkEveryN t late l2 := by
  rw [hl]
  exact ⟨h.params, ⟨f2, rfl, hf2.trans h.created, hsize⟩, h.period, h.clock, hcount, hcur, h.day,
    h.next, h.bound⟩

/-- The file is replaced in a later second: the new one has no late writes. -/
theorem Writing.roll (h : Writing rollSize checkEveryN t late l f) (proc : Process) (c : Int)
    (ht : l.lastRoll < t) (hcount : 0 ≤ c ∧ c < max 1 checkEveryN) :
    Bounded rollSize checkEveryN t late (rollFile proc { l with count := c } t).1 := by
  rw [rollFile_accepted (l := { l with count := c }) h.file ht]
  have hlen : (l.closed ++ [f.flush]).length = l.closed.length + 1 := by simp
  have hnew : late.count (l.closed ++ [f.flush]).length = 0 := h.next _ (by omega)
  refine ⟨h.params, ⟨_, rfl, rfl, .inr rfl⟩, rfl, ⟨?_, Int.le_refl t⟩, hcount, ?_, .inl hnew, ?_,
    h.bound⟩
  · show 0 < t
    have := h.clock
    omega
  · show ((late.count (l.closed ++ [f.flush]).length : Nat) : Int) ≤ c
    rw [hnew]
    exact hcount.1
  · intro i hi
    replace hi : (l.closed ++ [f.flush]).length < i := hi
    exact h.next i (by omega)

/-- `isNeedRollFile` and the roll it asks for. -/
theorem Writing.decide (h : Writing rollSize checkEveryN t late l f)
    (hl : (isNeedRollFile l t).map (fun r => if r.2 then (rollFile proc r.1 t).1 else r.1) =
      some l') : Bounded rollSize checkEveryN t late l' := by
  obtain ⟨hroll, hN⟩ := h.params
  obtain ⟨hpos, hle⟩ := h.clock
  obtain ⟨hc0, hc1⟩ := h.count
  have hcur := h.current
  have hperiod := h.period
  rcases isNeedRollFile_cases h.file with ⟨hsize, e⟩ | ⟨hsize, hn, e⟩ | ⟨hsize, hn, hday, e⟩ |
      ⟨hsize, hn, hday, -, e⟩ | ⟨hsize, hn, hday, -, e⟩ <;>
    rw [e, Option.map_some, Option.some_inj] at hl <;> subst hl
  · -- too large: a refused roll means that the file was opened in this second
    by_cases hlast : l.lastRoll < t
    · exact h.roll proc l.count hlast h.count
    · have ht : t = l.lastRoll := by omega
      have hz : late.count l.closed.length = 0 := h.same (by rw [ht]; exact hperiod.symm)
      rw [if_pos rfl, rollFile_refused (Int.not_lt.mp hlast)]
      exact h.stay l f (by rw [← h.file]) rfl (.inr ht) h.count (by omega)
  · exact h.stay _ f (by rw [← h.file]; rfl) rfl (.inl (by omega))
      ⟨by simp; omega, by simp; omega⟩ hcur
  · -- another day than the file's: the second of the last roll has passed
    have hne : t ≠ l.lastRoll := fun ht => hday (by rw [ht]; exact hperiod.symm)
    exact h.roll proc 0 (by omega) ⟨by omega, by omega⟩
  · have hz := h.same hday
    exact h.stay _ f.flush rfl rfl (.inl (by simp only [AppendFile.flush]; omega))
      ⟨by simp, by simp⟩ (by simp [hz])
  · have hz := h.same hday
    exact h.stay _ f (by rw [← h.file]; rfl) rfl (.inl (by omega)) ⟨by simp, by simp⟩ (by simp [hz])

/-- **One write** in a second not before the last one. -/
theorem Bounded.write (h : Bounded rollSize checkEveryN t late l) (ht : t ≤ w.now)
    (hw : LogFile.write proc l w = some l') :
    Bounded rollSize checkEveryN w.now (late ++ lateWrite l w) l' := by
  obtain ⟨f, hf, -⟩ := h.file
  unfold LogFile.write at hw
  rw [append_eq hf] at hw
  obtain ⟨f1, hf1, hw⟩ := Option.bind_eq_some_iff.mp hw
  have hcreated : f1.created = f.created := by
    obtain ⟨c, -, e⟩ := Option.map_eq_some_iff.mp hf1
    rw [← e]
  exact (h.writing ht hf f1 hcreated).decide hw

theorem bounded_new (proc : Process) (basename : List UInt8) (flushInterval : Int) {t0 : Int}
    (h0 : 0 < t0) :
    Bounded rollSize checkEveryN t0 []
      (new proc basename rollSize flushInterval checkEveryN t0) := by
  unfold new rollFile
  rw [if_pos (by exact h0)]
  exact ⟨⟨rfl, rfl⟩, ⟨_, rfl, rfl, .inr rfl⟩, rfl, ⟨h0, Int.le_refl t0⟩,
    ⟨Int.le_refl 0, by simp⟩, by simp, .inl rfl, fun _ _ => rfl, fun _ => by simp⟩

theorem lastSecond_snoc (t0 : Int) (ws : List Write) : lastSecond t0 (ws ++ [w]) = w.now := by
  simp [lastSecond]

theorem pairwise_of_snoc {t0 : Int} {ws : List Write}
    (h : (t0 :: (ws ++ [w]).map Write.now).Pairwise (· ≤ ·)) :
    (t0 :: ws.map Write.now).Pairwise (· ≤ ·) := by
  rw [List.map_append, ← List.cons_append, List.pairwise_append] at h
  exact h.1

theorem lastSecond_le {t0 : Int} {ws : List Write}
    (h : (t0 :: (ws ++ [w]).map Write.now).Pairwise (· ≤ ·)) : lastSecond t0 ws ≤ w.now := by
  rw [List.map_append, ← List.cons_append, List.pairwise_append] at h
  refine h.2.2 _ ?_ w.now (by simp)
  unfold lastSecond
  cases hl : (ws.map Write.now).getLast? with
  | none => simp
  | some a => exact List.mem_cons_of_mem _ (List.mem_of_getLast? hl)

/-- Every run keeps the invariant. -/
theorem bounded_exec {proc : Process} {basename : List UInt8} {flushInterval t0 : Int}
    (h0 : 0 < t0) {ws : List Write} (hmono : (t0 :: ws.map Write.now).Pairwise (· ≤ ·))
    (he : Lts.exec (LogFile.write proc)
      (new proc basename rollSize flushInterval checkEveryN t0) ws = some l) :
    Bounded rollSize checkEveryN (lastSecond t0 ws)
      (lateWrites proc (new proc basename rollSize flushInterval checkEveryN t0) ws) l := by
  refine Lts.exec_inv (P := fun ws l => (t0 :: ws.map Write.now).Pairwise (· ≤ ·) →
    Bounded rollSize checkEveryN (lastSecond t0 ws) (lateWrites proc _ ws) l) ?_ ?_ he hmono
  · intro _
    exact bounded_new proc basename flushInterval h0
  · intro ws l w l' he ih hw hmono
    rw [lateWrites_snoc he, lastSecond_snoc]
    exact (ih (pairwise_of_snoc hmono)).write (lastSecond_le hmono) hw

theorem Bounded.write_defined (proc : Process) (h : Bounded rollSize checkEveryN t late l)
    (hlen : w.len = w.logline.length)
    (hall : w.answers = AppendFile.acceptAll w.logline) :
    ∃ l', LogFile.write proc l w = some l' := by
  obtain ⟨f, hf, -⟩ := h.file
  unfold LogFile.write
  rw [hlen, hall, append_acceptAll hf]
  unfold isNeedRollFile
  exact ⟨_, rfl⟩

/-- A stream that accepts everything lets every run through. -/
theorem exec_defined {proc : Process} {basename : List UInt8}
    {rollSize flushInterval checkEveryN t0 : Int} (h0 : 0 < t0) {ws : List Write}
    (hmono : (t0 :: ws.map Write.now).Pairwise (· ≤ ·))
    (hall : ∀ w ∈ ws, w.len = w.logline.length ∧ w.answers = AppendFile.acceptAll w.logline) :
    ∃ l, Lts.exec (LogFile.write proc)
      (new proc basename rollSize flushInterval checkEveryN t0) ws = some l := by
  induction ws using List.reverseRecOn with
  | nil => exact ⟨_, rfl⟩
  | append_singleton ws w ih =>
    have hmono' := pairwise_of_snoc hmono
    obtain ⟨l, he⟩ := ih hmono' fun v hv => hall v (List.mem_append_left _ hv)
    obtain ⟨hlen, hw⟩ := hall w (by simp)
    obtain ⟨l', hl'⟩ := (bounded_exec h0 hmono' he).write_defined proc hlen hw
    exact ⟨l', Lts.exec_snoc he hl'⟩

/-- **How late a roll can come.** After every run of appends the current file, opened in the
second `lastRoll_`, is at most `rollSize_` large unless the clock is still in that second, and
`startOfPeriod_` is the beginning of its UTC day; the counter is in its range; and no opened file
has taken more than `max(1, checkEveryN)` messages of a later day than its own. -/
theorem roll_bounds (proc : Process) (basename : List UInt8)
    (rollSize flushInterval checkEveryN t0 : Int) (h0 : 0 < t0) (ws : List Write)
    (hmono : (t0 :: ws.map Write.now).Pairwise (· ≤ ·)) (l : LogFile)
    (he : Lts.exec (LogFile.write proc)
      (new proc basename rollSize flushInterval checkEveryN t0) ws = some l) :
    (∃ f, l.file = some f ∧ f.created = l.lastRoll ∧
      l.startOfPeriod = 86400 * (f.created / 86400) ∧
      ((f.writenBytes : Int) ≤ rollSize ∨ lastSecond t0 ws = l.lastRoll)) ∧
    (0 ≤ l.count ∧ l.count ≤ max 1 checkEveryN - 1) ∧
    ∀ i, ((lateWrites proc (new proc basename rollSize flushInterval checkEveryN t0) ws).count i :
      Int) ≤ max 1 checkEveryN := by
  have h := bounded_exec h0 hmono he
  obtain ⟨f, hf, hcreated, hsize⟩ := h.file
  obtain ⟨hc0, hc1⟩ := h.count
  have hperiod : l.startOfPeriod = 86400 * (f.created / 86400) := by
    rw [hcreated, h.period, periodOf_eq h.clock.1]
  exact ⟨⟨f, hf, hcreated, hperiod, hsize⟩, ⟨hc0, by omega⟩, h.bound⟩

/-- A message over the roll size in the first second of a day, and two in the next day. -/
theorem roll_bounds_nextDay :
    ∃ l, Lts.exec (LogFile.write ⟨ascii "host", 7⟩)
        (new ⟨ascii "host", 7⟩ (ascii "test") 2 3 3 86400)
        [⟨ascii "abc", 3, [⟨3, false⟩], 86400⟩, ⟨ascii "d", 1, [⟨1, false⟩], 172800⟩,
          ⟨ascii "e", 1, [⟨1, false⟩], 172801⟩] = some l ∧
      (∃ f, l.file = some f ∧ f.created = l.lastRoll ∧
        l.startOfPeriod = 86400 * (f.created / 86400) ∧
        ((f.writenBytes : Int) ≤ 2 ∨ lastSecond 86400 [⟨ascii "abc", 3, [⟨3, false⟩], 86400⟩,
          ⟨ascii "d", 1, [⟨1, false⟩], 172800⟩, ⟨ascii "e", 1, [⟨1, false⟩], 172801⟩] =
            l.lastRoll)) ∧
      (0 ≤ l.count ∧ l.count ≤ max 1 3 - 1) ∧
      ∀ i, ((lateWrites ⟨ascii "host", 7⟩ (new ⟨ascii "host", 7⟩ (ascii "test") 2 3 3 86400)
        [⟨ascii "abc", 3, [⟨3, false⟩], 86400⟩, ⟨ascii "d", 1, [⟨1, false⟩], 172800⟩,
          ⟨ascii "e", 1, [⟨1, false⟩], 172801⟩]).count i : Int) ≤ max 1 3 :=
  ⟨_, rfl, roll_bounds ⟨ascii "host", 7⟩ (ascii "test") 2 3 3 86400 (by decide) _ (by decide) _ rfl⟩

end LogFile

end MultiThreadLog
