import MultiThreadLog.Lib.Runs
import MultiThreadLog.Logging.Format

/-!
# The per-second cache over runs

Any number of threads format records while `Logger::setTimeZone` changes the global zone. `seen`
remembers for each thread the last second it formatted and the zone it formatted it in;
`Caches` says that the thread-local buffer holds just that text.
-/

namespace MultiThreadLog

open Bytes Numeral

/-- A record's time prefix, with its time and the zone in force. -/
structure PrefixRecord where
  zone : TimeZone
  time : Timestamp
  text : List UInt8

structure LogTimes where
  g_logTimeZone : TimeZone
  threads : Nat → ThreadLocals
  records : List PrefixRecord

namespace LogTimes

inductive Op where
  | setTimeZone (tz : TimeZone)
  | formatTime (tid : Nat) (time : Timestamp) (leftover : Nat → UInt8)

def init : LogTimes := ⟨.none, fun _ => ⟨0, []⟩, []⟩

def step (s : LogTimes) : Op → Option LogTimes
  | .setTimeZone tz => some { s with g_logTimeZone := tz }
  | .formatTime tid time leftover =>
    (formatTime s.g_logTimeZone (s.threads tid) (.new leftover) time).map fun r =>
      { s with
        threads := fun t => if t = tid then r.1 else s.threads t
        records := s.records ++ [⟨s.g_logTimeZone, time, r.2.buffer.toString⟩] }

/-! ## The cache as a machine of its own -/

/-- The last second a thread formatted, and in which zone. -/
structure Seen where
  lastSecond : Int
  zone : TimeZone

/-- The zone in force, and what each thread has seen. -/
structure View where
  zone : TimeZone
  threads : Nat → Seen

def look (v : View) : Op → View
  | .setTimeZone tz => { v with zone := tz }
  | .formatTime tid time _ =>
    if time.seconds ≠ (v.threads tid).lastSecond then
      { v with threads := fun t => if t = tid then ⟨time.seconds, v.zone⟩ else v.threads t }
    else v

def seen (ops : List Op) : View := ops.foldl look ⟨.none, fun _ => ⟨0, .none⟩⟩

/-- The step formats afresh, or the zone in force shows the second as the zone did in which the
thread formatted it. -/
def ShowsAlike (ops : List Op) : Op → Prop
  | .setTimeZone _ => True
  | .formatTime tid time _ =>
    time.seconds ≠ ((seen ops).threads tid).lastSecond ∨
      localSecond (seen ops).zone time.seconds =
        localSecond ((seen ops).threads tid).zone time.seconds

def Op.second? : Op → Option Int
  | .setTimeZone _ => .none
  | .formatTime _ time _ => some time.seconds

theorem seen_snoc (ops : List Op) (op : Op) : seen (ops ++ [op]) = look (seen ops) op := by
  rw [seen, List.foldl_append]
  rfl

theorem look_zone (v : View) (tid : Nat) (time : Timestamp) (leftover : Nat → UInt8) :
    (look v (.formatTime tid time leftover)).zone = v.zone := by
  simp only [look]
  split <;> rfl

/-- Only the thread itself sees the second. -/
theorem look_threads (v : View) (tid t : Nat) (time : Timestamp) (leftover : Nat → UInt8) :
    (look v (.formatTime tid time leftover)).threads t =
      if t = tid then
        (if time.seconds ≠ (v.threads tid).lastSecond then ⟨time.seconds, v.zone⟩
        else v.threads tid)
      else v.threads t := by
  simp only [look]
  by_cases hsame : time.seconds = (v.threads tid).lastSecond
  · rw [if_neg (not_not.mpr hsame), if_neg (not_not.mpr hsame)]
    split
    · rename_i ht
      rw [ht]
    · rfl
  · rw [if_pos hsame, if_pos hsame]

/-- The zone in force shows the second as the text does which the thread has now. -/
theorem shows_iff {z : TimeZone} {v : Seen} {t u : Int}
    (hu : localSecond (if t ≠ v.lastSecond then z else v.zone) t = some u) :
    localSecond z t = some u ↔ (t ≠ v.lastSecond ∨ localSecond z t = localSecond v.zone t) := by
  by_cases hsame : t = v.lastSecond
  · rw [if_neg (not_not.mpr hsame)] at hu
    rw [hu]
    exact ⟨.inr, fun hor => hor.resolve_left (not_not.mpr hsame)⟩
  · rw [if_pos hsame] at hu
    exact iff_of_true hu (.inl hsame)

/-- The buffer of a thread holds the second it has seen, as its zone shows it. -/
structure Caches (tl : ThreadLocals) (v : Seen) : Prop where
  second : tl.t_lastSecond = v.lastSecond
  text : 1 ≤ v.lastSecond → ∃ u, localSecond v.zone v.lastSecond = some u ∧ FourDigitYear u ∧
    tl.t_time = dateTimeText (gmtime u)

/-- The records' local times have years of four digits. -/
def FourDigits (records : List PrefixRecord) : Prop :=
  ∀ r ∈ records, ∀ u, localSecond r.zone r.time.seconds = some u → FourDigitYear u

def Fresh (r : PrefixRecord) : Prop := timePrefix r.zone r.time = some r.text

structure Inv (ops : List Op) (s : LogTimes) : Prop where
  zone : s.g_logTimeZone = (seen ops).zone
  threads : ∀ tid, Caches (s.threads tid) ((seen ops).threads tid)
  records : (∀ r ∈ s.records, Fresh r) ↔ Lts.Along ShowsAlike ops

theorem microseconds_of_second {time : Timestamp} (h : 1 ≤ time.seconds) :
    0 ≤ time.microseconds ∧ time.microseconds < 1000000 := by
  refine Timestamp.microseconds_of_nonneg ?_
  by_contra hneg
  have hk : Timestamp.kMicroSecondsPerSecond = 1000000 := rfl
  have hneg' : 0 ≤ (-time.microSecondsSinceEpoch).tdiv Timestamp.kMicroSecondsPerSecond :=
    Int.tdiv_nonneg (by omega) (by omega)
  rw [Int.neg_tdiv] at hneg'
  unfold Timestamp.seconds at h
  omega

theorem dateTimeText_gmtime_length {u : Int} (h : FourDigitYear u) :
    (dateTimeText (gmtime u)).length = 17 := dateTimeText_length (gmtime_inRange h)

/-- **One record**: the text of the thread's second, and the microseconds in the zone. -/
theorem formatTime_eq {z : TimeZone} {tl tl' : ThreadLocals} {v : Seen} {time : Timestamp}
    {leftover : Nat → UInt8} {stream : LogStream} (hc : Caches tl v) (hsec : 1 ≤ time.seconds)
    (hyear : ∀ u, localSecond z time.seconds = some u → FourDigitYear u)
    (h : formatTime z tl (.new leftover) time = some (tl', stream)) :
    ∃ u, Caches tl' (if time.seconds ≠ v.lastSecond then ⟨time.seconds, z⟩ else v) ∧
      localSecond (if time.seconds ≠ v.lastSecond then z else v.zone) time.seconds = some u ∧
      FourDigitYear u ∧
      stream.buffer.toString =
        dateTimeText (gmtime u) ++ (microsecondText z time.microseconds).text := by
  obtain ⟨hus0, hus1⟩ := microseconds_of_second hsec
  -- whatever the thread holds now, it is inserted whole
  have write : ∀ (tl1 : ThreadLocals) {u : Int}, FourDigitYear u →
      tl1.t_time = dateTimeText (gmtime u) →
      ((LogStream.new leftover).insertAll [.text (.piece ⟨tl1.t_time, 17⟩),
        .text (.piece ⟨(microsecondText z time.microseconds).data,
          (microsecondText z time.microseconds).length⟩)]).map (fun s => (tl1, s)) =
        some (tl', stream) →
      tl' = tl1 ∧ stream.buffer.toString =
        dateTimeText (gmtime u) ++ (microsecondText z time.microseconds).text := by
    intro tl1 u hu ht hs
    rw [ht] at hs
    obtain ⟨s, hs', hh⟩ := insert_prefix leftover (dateTimeText_gmtime_length hu)
      (fun b hb => ne_zero_of_mem_dateTimeText hb) (microsecondText_length hus0 hus1)
      (fun b hb => ne_zero_of_mem_microsecondText hb)
    rw [hs', Option.map_some] at hs
    cases hs
    exact ⟨rfl, hh.text_eq⟩
  unfold formatTime at h
  by_cases hsame : time.seconds = v.lastSecond
  · obtain ⟨u, hu, hyu, ht⟩ := hc.text (by omega)
    simp only [hc.second, hsame, ne_eq, not_true_eq_false, if_false, Option.bind_some] at h ⊢
    rw [← hsame] at hu
    obtain ⟨rfl, htext⟩ := write tl hyu ht h
    exact ⟨u, hc, by rw [← hsame]; exact hu, hyu, htext⟩
  · have hne : time.seconds ≠ tl.t_lastSecond := by rw [hc.second]; exact hsame
    simp only [if_pos hne] at h
    obtain ⟨tl1, htl1, h⟩ := Option.bind_eq_some_iff.mp h
    obtain ⟨tm, htm, e⟩ := Option.map_eq_some_iff.mp htl1
    have hu : localSecond z time.seconds = some (time.seconds + tm.gmtoff) := by
      rw [localSecond, htm, Option.map_some]
    have hyu := hyear _ hu
    have hsec1 : tl1.t_lastSecond = time.seconds := by rw [← e]
    have htime : tl1.t_time = (dateTimeText tm).take 63 := by rw [← e]
    have ht : tl1.t_time = dateTimeText (gmtime (time.seconds + tm.gmtoff)) := by
      rw [htime, dateTimeText_brokenDown htm, List.take_of_length_le]
      rw [dateTimeText_gmtime_length hyu]
      omega
    obtain ⟨rfl, htext⟩ := write tl1 hyu ht h
    simp only [if_pos hsame]
    exact ⟨_, ⟨hsec1, fun _ => ⟨_, hu, hyu, ht⟩⟩, hu, hyu, htext⟩

/-- A record with the text of the second `u` is that of its own time exactly if its zone shows
the second so. -/
theorem fresh_iff {r : PrefixRecord} {u : Int}
    (hyear : ∀ u, localSecond r.zone r.time.seconds = some u → FourDigitYear u)
    (hu : FourDigitYear u)
    (htext : r.text =
      dateTimeText (gmtime u) ++ (microsecondText r.zone r.time.microseconds).text) :
    Fresh r ↔ localSecond r.zone r.time.seconds = some u := by
  unfold Fresh
  rw [timePrefix_eq, htext]
  refine ⟨fun h => ?_, fun h => by rw [h, Option.map_some]⟩
  obtain ⟨u', hu', e⟩ := Option.map_eq_some_iff.mp h
  rw [hu', dateTimeText_inj (hyear u' hu') hu (List.append_cancel_right e)]

theorem Inv.step {ops : List Op} {op : Op} {s s' : LogTimes} (h : Inv ops s)
    (hsec : ∀ t, op.second? = some t → 1 ≤ t) (hyear : FourDigits s'.records)
    (hs : s.step op = some s') : Inv (ops ++ [op]) s' := by
  cases op with
  | setTimeZone tz =>
    cases hs
    refine ⟨by rw [seen_snoc]; rfl, fun tid => ?_, ?_⟩
    · rw [seen_snoc]
      exact h.threads tid
    · rw [Lts.along_snoc, ← h.records]
      exact ⟨fun hr => ⟨hr, trivial⟩, fun hr => hr.1⟩
  | formatTime tid time leftover =>
    obtain ⟨⟨tl', stream⟩, hf, e⟩ := Option.map_eq_some_iff.mp hs
    subst e
    have hsec' : 1 ≤ time.seconds := hsec _ rfl
    have hyear' : ∀ u, localSecond s.g_logTimeZone time.seconds = some u → FourDigitYear u :=
      hyear ⟨s.g_logTimeZone, time, stream.buffer.toString⟩ (by simp)
    obtain ⟨u, hc, hu, hyu, htext⟩ := formatTime_eq (h.threads tid) hsec' hyear' hf
    refine ⟨?_, fun t => ?_, ?_⟩
    · rw [seen_snoc, look_zone]
      exact h.zone
    · rw [seen_snoc, look_threads, ← h.zone]
      show Caches (if t = tid then tl' else s.threads t) _
      split
      · exact hc
      · exact h.threads t
    · have hlast : Fresh ⟨s.g_logTimeZone, time, stream.buffer.toString⟩ ↔
          ShowsAlike ops (.formatTime tid time leftover) := by
        rw [fresh_iff (r := ⟨s.g_logTimeZone, time, stream.buffer.toString⟩) hyear' hyu htext]
        show _ ↔ (_ ≠ _ ∨ _ = _)
        rw [← h.zone]
        exact shows_iff hu
      rw [Lts.along_snoc, ← h.records, ← hlast]
      simp only [List.mem_append, List.mem_singleton]
      exact ⟨fun hall => ⟨fun r hr => hall r (.inl hr), hall _ (.inr rfl)⟩,
        fun hall r hr => hr.elim (hall.1 r) fun e => e ▸ hall.2⟩

theorem inv_init : Inv [] init := by
  refine ⟨rfl, fun tid => ⟨rfl, fun h => ?_⟩, fun _ => Lts.along_nil _, fun _ r hr => nomatch hr⟩
  have h' : (1 : Int) ≤ 0 := h
  omega

/-- A step only adds records. -/
theorem records_step {s s' : LogTimes} {op : Op} (hs : s.step op = some s') :
    ∀ r ∈ s.records, r ∈ s'.records := by
  intro r hr
  cases op with
  | setTimeZone tz =>
    cases hs
    exact hr
  | formatTime tid time leftover =>
    obtain ⟨x, -, e⟩ := Option.map_eq_some_iff.mp hs
    subst e
    exact List.mem_append_left _ hr

/-- **The cache over runs.** With seconds from 1 on and local years of four digits, all records
of a run carry the prefix of their own time in the zone in force exactly if every step formats
afresh or finds the second shown as by the zone it was formatted in. -/
theorem prefixes_fresh_iff (ops : List Op) (s : LogTimes) (he : Lts.exec step init ops = some s)
    (hsec : ∀ op ∈ ops, ∀ t, op.second? = some t → 1 ≤ t)
    (hyear : ∀ r ∈ s.records, ∀ u, localSecond r.zone r.time.seconds = some u → FourDigitYear u) :
    (∀ r ∈ s.records, timePrefix r.zone r.time = some r.text) ↔ Lts.Along ShowsAlike ops := by
  have hyear' : FourDigits s.records := hyear
  have hinv : Inv ops s := by
    refine Lts.exec_inv (P := fun ops s => (∀ op ∈ ops, ∀ t, op.second? = some t → 1 ≤ t) →
      FourDigits s.records → Inv ops s) ?_ ?_ he hsec hyear'
    · intro _ _
      exact inv_init
    · intro ops s op s' _ ih hs hsec hyear
      refine (ih ?_ ?_).step (hsec op (by simp)) hyear hs
      · exact fun o ho => hsec o (List.mem_append_left _ ho)
      · exact fun r hr => hyear r (records_step hs r hr)
  exact hinv.records

/-- Two records of one second, and a zone eight hours east set between them. -/
def zoneChange : List Op :=
  [.formatTime 1 ⟨86400000000⟩ (fun _ => 7), .setTimeZone (.fixed (8 * 3600) (ascii "CST")),
    .formatTime 1 ⟨86400000005⟩ (fun _ => 7)]

/-- The second record shows UTC without the `Z`, eight hours off the prefix of its own time. -/
theorem zoneChange_stale :
    (Lts.exec step init zoneChange).map (fun s => s.records.map PrefixRecord.text) =
      some [ascii "19700102 00:00:00.000000Z ", ascii "19700102 00:00:00.000005 "] ∧
    (Lts.exec step init zoneChange).map (fun s =>
        s.records.map fun r => timePrefix r.zone r.time) =
      some [some (ascii "19700102 00:00:00.000000Z "),
        some (ascii "19700102 08:00:00.000005 ")] :=
  ⟨rfl, rfl⟩

theorem prefixes_fresh_iff_zoneChange :
    (∀ op ∈ zoneChange, ∀ t, op.second? = some t → 1 ≤ t) ∧
    ∃ s, Lts.exec step init zoneChange = some s ∧
      (∀ r ∈ s.records, ∀ u, localSecond r.zone r.time.seconds = some u → FourDigitYear u) ∧
      ((∀ r ∈ s.records, timePrefix r.zone r.time = some r.text) ↔
        Lts.Along ShowsAlike zoneChange) := by
  have hsec : ∀ op ∈ zoneChange, ∀ t, op.second? = some t → 1 ≤ t := by
    have hall : ∀ t ∈ zoneChange.filterMap Op.second?, 1 ≤ t := by decide
    exact fun op hop t ht => hall t (List.mem_filterMap.mpr ⟨op, hop, ht⟩)
  have hlocal : (Lts.exec step init zoneChange).map (fun s => s.records.map fun r =>
      localSecond r.zone r.time.seconds) = some [some 86400, some 115200] := by decide +kernel
  obtain ⟨s, he, hr⟩ := Option.map_eq_some_iff.mp hlocal
  have hyear : ∀ r ∈ s.records, ∀ u, localSecond r.zone r.time.seconds = some u →
      FourDigitYear u := by
    intro r hmem u hu
    have hin : some u ∈ [some (86400 : Int), some 115200] := by
      rw [← hr, ← hu]
      exact List.mem_map_of_mem hmem
    simp only [List.mem_cons, Option.some.injEq, List.not_mem_nil, or_false] at hin
    unfold FourDigitYear
    omega
  exact ⟨hsec, s, he, hyear, prefixes_fresh_iff zoneChange s he hsec hyear⟩

end LogTimes

end MultiThreadLog
