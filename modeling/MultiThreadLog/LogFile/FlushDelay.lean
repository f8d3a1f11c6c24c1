import MultiThreadLog.LogFile.Rolling

/-!
# How long a byte waits for a flush

Runs of `append`, each in one second, and of `flush`, where every byte of the current file keeps
the second it was appended in (`Stamped`). `lastFlush_` is set by rolls and by the periodic flush
and not by `flush`; it is at most the second of any byte not yet flushed, and `lastRoll_` at most
that of any byte of the file (`Stamps`). So an `append` leaves old bytes behind only when it does
no more than count, which it does fewer than `checkEveryN_` times in a row.
-/

namespace MultiThreadLog

open Bytes

namespace LogFile

inductive Call where
  | append (w : Write)
  | flush

def Call.write? : Call → Option Write
  | .append w => some w
  | .flush => none

/-- The appends among the calls. -/
def writes (cs : List Call) : List Write := cs.filterMap Call.write?

/-- The bytes of the current file. -/
def size (l : LogFile) : Nat := (l.file.map fun f => f.content.length).getD 0

/-- A log file with the second in which each byte of the current file was appended. -/
structure Stamped where
  log : LogFile
  stamps : List Int

namespace Stamped

/-- The stamps after an `append` in the second `now` that leads to `l`: new bytes get the present
second, a new file has none. -/
def restamp (s : Stamped) (now : Int) (l : LogFile) : Stamped where
  log := l
  stamps :=
    if l.closed.length = s.log.closed.length then
      s.stamps ++ List.replicate (l.size - s.log.size) now
    else []

def call (proc : Process) (s : Stamped) : Call → Option Stamped
  | .append w => (s.log.write proc w).map (s.restamp w.now)
  | .flush => s.log.flush.map fun l => { s with log := l }

def new (proc : Process) (basename : List UInt8)
    (rollSize flushInterval checkEveryN t0 : Int) : Stamped :=
  ⟨LogFile.new proc basename rollSize flushInterval checkEveryN t0, []⟩

/-- Every byte of the current file that is not flushed was appended at most `flushInterval`
seconds before `now`. -/
def Fresh (flushInterval now : Int) (s : Stamped) : Prop :=
  ∃ f, s.log.file = some f ∧ ∀ i, f.flushed ≤ i → i < f.content.length →
    ∃ second, s.stamps[i]? = some second ∧ now - second ≤ flushInterval

end Stamped

variable {proc : Process} {l : LogFile} {s s' : Stamped} {f f' : AppendFile} {w : Write}
  {added : List UInt8} {flushInterval checkEveryN t now : Int}

/-! ## The invariant -/

/-- In the second `t`. -/
structure Stamps (flushInterval checkEveryN t : Int) (s : Stamped) (f : AppendFile) : Prop where
  params : s.log.flushInterval = flushInterval ∧ s.log.checkEveryN = checkEveryN
  file : s.log.file = some f
  stamped : s.stamps.length = f.content.length
  current : ∀ second ∈ s.stamps, s.log.lastRoll ≤ second
  unflushed : ∀ (i : Nat) second, f.flushed ≤ i → s.stamps[i]? = some second →
    s.log.lastFlush ≤ second
  period : s.log.startOfPeriod = periodOf s.log.lastRoll
  clock : 0 < s.log.lastRoll ∧ s.log.lastRoll ≤ t ∧ s.log.lastFlush ≤ t
  count : 0 ≤ s.log.count

theorem Stamps.lt_of_stamp {i : Nat} {second : Int} (h : Stamps flushInterval checkEveryN t s f)
    (hget : s.stamps[i]? = some second) : i < f.content.length := by
  rw [← h.stamped]
  exact (List.getElem?_eq_some_iff.mp hget).1

/-- What the stamps of the current file say about its unflushed bytes. -/
theorem Stamps.fresh (h : Stamps flushInterval checkEveryN t s f)
    (hage : ∀ (i : Nat) second, f.flushed ≤ i → i < f.content.length →
      s.stamps[i]? = some second → now - second ≤ flushInterval) :
    s.Fresh flushInterval now := by
  refine ⟨f, h.file, fun i hi hlt => ?_⟩
  have hlt' : i < s.stamps.length := by rw [h.stamped]; exact hlt
  exact ⟨s.stamps[i], List.getElem?_eq_getElem hlt',
    hage i _ hi hlt (List.getElem?_eq_getElem hlt')⟩

/-- The bytes of one `append`, before the decision to roll. -/
theorem Stamps.written (h : Stamps flushInterval checkEveryN t s f) (ht : t ≤ now)
    (hf' : f'.content = f.content ++ added) (hflushed : f'.flushed = f.flushed) :
    Stamps flushInterval checkEveryN now
      ⟨{ s.log with file := some f' }, s.stamps ++ List.replicate added.length now⟩ f' := by
  obtain ⟨h0, hroll, hflush⟩ := h.clock
  refine ⟨h.params, rfl, ?_, fun second hs => ?_, fun i second hi hs => ?_, h.period,
    ⟨h0, by simp only; omega, by simp only; omega⟩, h.count⟩
  · rw [List.length_append, h.stamped, List.length_replicate, hf', List.length_append]
  · rcases List.mem_append.mp hs with hs | hs
    · exact h.current second hs
    · rw [(List.mem_replicate.mp hs).2]
      simp only
      omega
  · simp only at hs ⊢
    by_cases hold : i < s.stamps.length
    · rw [List.getElem?_append_left hold] at hs
      exact h.unflushed i second (by omega) hs
    · rw [List.getElem?_append_right (by omega)] at hs
      rw [(List.mem_replicate.mp (List.mem_of_getElem? hs)).2]
      omega

/-- The file stays open, its bytes as they are. -/
theorem Stamps.stay (h : Stamps flushInterval checkEveryN t s f) (l2 : LogFile) (f2 : AppendFile)
    (hl : l2 = { s.log with count := l2.count, lastFlush := l2.lastFlush, file := l2.file })
    (hfile : l2.file = some f2) (hcontent : f2.content = f.content) (hcount : 0 ≤ l2.count)
    (hflush : l2.lastFlush ≤ t)
    (hunflushed : ∀ (i : Nat) second, f2.flushed ≤ i → s.stamps[i]? = some second →
      l2.lastFlush ≤ second) :
    Stamps flushInterval checkEveryN t ⟨l2, s.stamps⟩ f2 := by
  obtain ⟨h0, hroll, -⟩ := h.clock
  refine ⟨?_, hfile, by rw [hcontent]; exact h.stamped, ?_, hunflushed, ?_, ?_, hcount⟩ <;> rw [hl]
  · exact h.params
  · exact h.current
  · exact h.period
  · exact ⟨h0, hroll, hflush⟩

/-- The file is replaced: the new one has no bytes. -/
theorem Stamps.roll (h : Stamps flushInterval checkEveryN t s f) (c : Int)
    (ht : s.log.lastRoll < t) (hcount : 0 ≤ c) (l2 : LogFile) (stamps2 : List Int)
    (hl : l2 = (rollFile proc { s.log with count := c } t).1)
    (hstamps : l2.closed.length = s.log.closed.length + 1 → stamps2 = []) :
    (∃ f', Stamps flushInterval checkEveryN t ⟨l2, stamps2⟩ f') ∧
    Stamped.Fresh flushInterval t ⟨l2, stamps2⟩ := by
  rw [rollFile_accepted (l := { s.log with count := c }) h.file ht] at hl
  have hpos := h.clock.1
  have hnil : stamps2 = [] := hstamps (by rw [hl]; simp)
  subst hl hnil
  exact ⟨⟨_, h.params, rfl, rfl, nofun, fun i second _ hs => by simp at hs, rfl,
    ⟨by simp only; omega, Int.le_refl t, Int.le_refl t⟩, hcount⟩, _, rfl, fun i _ hi => by cases hi⟩

/-- `isNeedRollFile` and the roll it asks for, in the second of the last append. -/
theorem Stamps.decide (h : Stamps flushInterval checkEveryN t s f) (hF : 0 ≤ flushInterval)
    (hl : (isNeedRollFile s.log t).map (fun r => if r.2 then (rollFile proc r.1 t).1 else r.1) =
      some s'.log)
    (hstay : s'.log.closed = s.log.closed → s'.log.size = s.log.size → s'.stamps = s.stamps)
    (hroll : s'.log.closed.length = s.log.closed.length + 1 → s'.stamps = []) :
    (∃ f', Stamps flushInterval checkEveryN t s' f') ∧
    (s'.Fresh flushInterval t ∨ s'.log.count = s.log.count + 1 ∧ s'.log.count < checkEveryN) := by
  obtain ⟨hinterval, hN⟩ := h.params
  obtain ⟨h0, hlast, hflush⟩ := h.clock
  have hcount := h.count
  have hperiod := h.period
  have hsize : s.log.size = f.content.length := by rw [size, h.file]; rfl
  obtain ⟨l', stamps'⟩ := s'
  simp only at hl hstay hroll ⊢
  rcases isNeedRollFile_cases h.file with ⟨-, e⟩ | ⟨-, hn, e⟩ | ⟨-, -, hday, e⟩ |
      ⟨-, -, -, -, e⟩ | ⟨-, -, -, hage, e⟩ <;>
    rw [e, Option.map_some, Option.some_inj] at hl <;>
    simp only [if_true, Bool.false_eq_true, if_false] at hl
  · -- too large: a refused roll means that all bytes of the file are of this second
    by_cases hlt : s.log.lastRoll < t
    · obtain ⟨h', hfresh⟩ := h.roll s.log.count hlt hcount l' stamps' hl.symm hroll
      exact ⟨h', .inl hfresh⟩
    · rw [rollFile_refused (Int.not_lt.mp hlt)] at hl
      subst hl
      rw [hstay rfl rfl]
      refine ⟨⟨f, h⟩, .inl (h.fresh fun i second _ _ hget => ?_)⟩
      have := h.current second (List.mem_of_getElem? hget)
      omega
  · subst hl
    rw [hstay rfl rfl]
    exact ⟨⟨f, h.stay _ f rfl h.file rfl (by simp only; omega) hflush h.unflushed⟩,
      .inr ⟨rfl, by simp only; omega⟩⟩
  · -- another day than the file's: the second of the last roll has passed
    have hne : t ≠ s.log.lastRoll := fun ht => hday (by rw [ht]; exact hperiod.symm)
    obtain ⟨h', hfresh⟩ := h.roll 0 (by omega) (Int.le_refl 0) l' stamps' hl.symm hroll
    exact ⟨h', .inl hfresh⟩
  · -- the periodic flush leaves no byte behind
    subst hl
    rw [hstay rfl hsize.symm]
    have h' := h.stay { s.log with count := 0, lastFlush := t, file := some f.flush } f.flush rfl
      rfl rfl (Int.le_refl 0) (Int.le_refl t) fun i second hi hget =>
        absurd hi (Nat.not_le.mpr (h.lt_of_stamp hget))
    exact ⟨⟨_, h'⟩, .inl (h'.fresh fun i second hi hlt _ => absurd hi (Nat.not_le.mpr hlt))⟩
  · subst hl
    rw [hstay rfl rfl]
    have h' := h.stay { s.log with count := 0 } f rfl h.file rfl (Int.le_refl 0) hflush h.unflushed
    refine ⟨⟨_, h'⟩, .inl (h'.fresh fun i second hi _ hget => ?_)⟩
    have := h.unflushed i second hi hget
    omega

/-- **One append** leaves every unflushed byte fresh, or does no more than count. -/
theorem Stamps.append (h : Stamps flushInterval checkEveryN t s f) (hF : 0 ≤ flushInterval)
    (ht : t ≤ w.now) (hs : s.call proc (.append w) = some s') :
    (∃ f', Stamps flushInterval checkEveryN w.now s' f') ∧
    (s'.Fresh flushInterval w.now ∨
      s'.log.count = s.log.count + 1 ∧ s'.log.count < checkEveryN) := by
  obtain ⟨l', hl', rfl⟩ := Option.map_eq_some_iff.mp hs
  unfold LogFile.write at hl'
  rw [append_eq h.file] at hl'
  obtain ⟨f1, hf1, hl'⟩ := Option.bind_eq_some_iff.mp hl'
  obtain ⟨added, e⟩ := AppendFile.append_extends hf1
  have hcontent : f1.content = f.content ++ added := by rw [e]
  refine (h.written ht hcontent (by rw [e])).decide hF hl' (fun hclosed hsize => ?_)
    fun hclosed => ?_
  · have hnew : l'.size - s.log.size = added.length := by
      replace hsize : l'.size = f1.content.length := hsize
      rw [hsize, hcontent, size, h.file]
      simp
    rw [Stamped.restamp, hnew, if_pos]
    rw [show l'.closed = s.log.closed from hclosed]
  · replace hclosed : l'.closed.length = s.log.closed.length + 1 := hclosed
    rw [Stamped.restamp, if_neg (by omega)]

theorem Stamps.flush (h : Stamps flushInterval checkEveryN t s f)
    (hs : s.call proc .flush = some s') :
    (∃ f', Stamps flushInterval checkEveryN t s' f') ∧ s'.log.count = s.log.count := by
  obtain ⟨l', hl', rfl⟩ := Option.map_eq_some_iff.mp hs
  rw [LogFile.flush, h.file, Option.map_some, Option.some_inj] at hl'
  subst hl'
  have hflush := h.clock.2.2
  exact ⟨⟨f.flush, h.stay _ f.flush rfl rfl rfl h.count hflush fun i second hi hget =>
    absurd hi (Nat.not_le.mpr (h.lt_of_stamp hget))⟩, rfl⟩

/-! ## Whole runs -/

variable {basename : List UInt8} {rollSize t0 : Int} {cs before during : List Call}

theorem stamps_new (h0 : 0 < t0) : ∃ f, Stamps flushInterval checkEveryN t0
    (.new proc basename rollSize flushInterval checkEveryN t0) f := by
  unfold Stamped.new new rollFile
  rw [if_pos (by exact h0)]
  exact ⟨_, ⟨rfl, rfl⟩, rfl, rfl, nofun, fun i second _ hs => by simp at hs, rfl,
    ⟨h0, Int.le_refl t0, Int.le_refl t0⟩, Int.le_refl 0⟩

theorem writes_snoc_append (cs : List Call) (w : Write) :
    writes (cs ++ [.append w]) = writes cs ++ [w] := List.filterMap_append

theorem writes_snoc_flush (cs : List Call) : writes (cs ++ [.flush]) = writes cs := by
  simp [writes, Call.write?]

/-- Every run keeps the invariant. -/
theorem stamps_exec (h0 : 0 < t0) (hF : 0 ≤ flushInterval)
    (hmono : (t0 :: (writes cs).map Write.now).Pairwise (· ≤ ·))
    (he : Lts.exec (Stamped.call proc)
      (.new proc basename rollSize flushInterval checkEveryN t0) cs = some s) :
    ∃ f, Stamps flushInterval checkEveryN (lastSecond t0 (writes cs)) s f := by
  refine Lts.exec_inv (P := fun cs s => (t0 :: (writes cs).map Write.now).Pairwise (· ≤ ·) →
    ∃ f, Stamps flushInterval checkEveryN (lastSecond t0 (writes cs)) s f) ?_ ?_ he hmono
  · intro _
    exact stamps_new h0
  · intro cs s c s' _ ih hs hmono
    cases c with
    | append w =>
      rw [writes_snoc_append] at hmono ⊢
      obtain ⟨f, h⟩ := ih (pairwise_of_snoc hmono)
      rw [lastSecond_snoc]
      exact (h.append hF (lastSecond_le hmono) hs).1
    | flush =>
      rw [writes_snoc_flush] at hmono ⊢
      obtain ⟨f, h⟩ := ih hmono
      exact (h.flush hs).1

/-- Either some append of `during` leaves every unflushed byte fresh, or all of them count. -/
theorem fresh_or_count (h0 : 0 < t0) (hF : 0 ≤ flushInterval)
    (hmono : (t0 :: (writes (before ++ during)).map Write.now).Pairwise (· ≤ ·))
    (he : Lts.exec (Stamped.call proc)
      (.new proc basename rollSize flushInterval checkEveryN t0) (before ++ during) = some s) :
    (∃ c1 w c2 s', during = c1 ++ .append w :: c2 ∧
      Lts.exec (Stamped.call proc) (.new proc basename rollSize flushInterval checkEveryN t0)
        (before ++ c1 ++ [.append w]) = some s' ∧ s'.Fresh flushInterval w.now) ∨
    ((writes during).length ≤ s.log.count ∧ (writes during = [] ∨ s.log.count < checkEveryN)) := by
  induction during using List.reverseRecOn generalizing s with
  | nil =>
    obtain ⟨f, h⟩ := stamps_exec h0 hF hmono he
    exact .inr ⟨h.count, .inl rfl⟩
  | append_singleton during c ih =>
    rw [← List.append_assoc] at hmono he
    obtain ⟨s1, he1, hs⟩ := Lts.exec_append_some he
    obtain ⟨_, hs, e⟩ := Lts.exec_cons hs
    cases e
    have hmono' : (t0 :: (writes (before ++ during)).map Write.now).Pairwise (· ≤ ·) := by
      cases c with
      | append w =>
        rw [writes_snoc_append] at hmono
        exact pairwise_of_snoc hmono
      | flush =>
        rw [writes_snoc_flush] at hmono
        exact hmono
    rcases ih hmono' he1 with ⟨c1, w, c2, s', e, he', hfresh⟩ | ⟨hcount, hlast⟩
    · exact .inl ⟨c1, w, c2 ++ [c], s', by rw [e, List.append_assoc]; rfl, he', hfresh⟩
    obtain ⟨f, h⟩ := stamps_exec h0 hF hmono' he1
    cases c with
    | append w =>
      rw [writes_snoc_append] at hmono
      rcases (h.append hF (lastSecond_le hmono) hs).2 with hfresh | ⟨hnext, hlt⟩
      · exact .inl ⟨during, w, [], s, rfl, he, hfresh⟩
      · rw [writes_snoc_append, List.length_append, List.length_singleton]
        exact .inr ⟨by push_cast; omega, .inr hlt⟩
    | flush =>
      rw [writes_snoc_flush, (h.flush hs).2]
      exact .inr ⟨hcount, hlast⟩

/-- **A byte waits `flushInterval_` seconds at most**, up to `checkEveryN_`. In every run of
appends, each in a second not before the last one, and of `flush` calls, one of any
`max(1, checkEveryN)` appends in a row leaves no unflushed byte that is older. -/
theorem flush_delay (proc : Process) (basename : List UInt8)
    (rollSize flushInterval checkEveryN t0 : Int) (h0 : 0 < t0) (hF : 0 ≤ flushInterval)
    (before during : List Call)
    (hmono : (t0 :: (writes (before ++ during)).map Write.now).Pairwise (· ≤ ·))
    (hcount : ((writes during).length : Int) = max 1 checkEveryN) (s : Stamped)
    (he : Lts.exec (Stamped.call proc)
      (.new proc basename rollSize flushInterval checkEveryN t0) (before ++ during) = some s) :
    ∃ c1 w c2 s', during = c1 ++ .append w :: c2 ∧
      Lts.exec (Stamped.call proc) (.new proc basename rollSize flushInterval checkEveryN t0)
        (before ++ c1 ++ [.append w]) = some s' ∧ s'.Fresh flushInterval w.now := by
  rcases fresh_or_count h0 hF hmono he with h | ⟨hle, hnil | hlt⟩
  · exact h
  · rw [hnil] at hcount
    simp at hcount
    omega
  · omega

/-- Three appends around a `flush`, the last of them over the interval. -/
theorem flush_delay_late :
    ∃ c1 w c2 s',
      [.append ⟨ascii "b", 1, [⟨1, false⟩], 86401⟩, .flush,
        .append ⟨ascii "c", 1, [⟨1, false⟩], 86402⟩,
        .append ⟨ascii "d", 1, [⟨1, false⟩], 86410⟩] = c1 ++ .append w :: c2 ∧
      Lts.exec (Stamped.call ⟨ascii "host", 7⟩)
        (.new ⟨ascii "host", 7⟩ (ascii "test") 100 3 3 86400)
        ([.append ⟨ascii "a", 1, [⟨1, false⟩], 86400⟩] ++ c1 ++ [.append w]) = some s' ∧
      s'.Fresh 3 w.now :=
  flush_delay ⟨ascii "host", 7⟩ (ascii "test") 100 3 3 86400 (by decide) (by decide) _ _
    (by decide) (by decide) _ rfl

end LogFile

end MultiThreadLog
