import MultiThreadLog.LogFile.Contents
import MultiThreadLog.Time.TextOrder

/-!
# The log files as a whole

In the years 1000 to 9999 the file names of one `LogFile` are in byte order as the seconds they are
made from, and a run makes them from increasing seconds. So a reader who has only the directory
gets the log by taking the files in the order of their names (`concat_in_name_order`).

What a replaced file holds is written out, because its stream is closed; what the current file
holds, after `flush` (`ClosedFlushed`). When the object goes, so does its stream (`destroy`).
-/

namespace MultiThreadLog

open Bytes Numeral

/-! ## The order of the names -/

theorem decimal_eq_zeroField {v : Int} (h : 1000 ≤ v ∧ v < 10000) : decimal v = zeroField 4 v := by
  have hlen := four_digits h.1 h.2
  rw [decimal_of_nonneg (by omega)] at hlen
  rw [decimal_of_nonneg (by omega), zeroField_of_nonneg (by omega), padLeft, hlen]
  rfl

/-- **The time text of a file name**, whatever follows. -/
theorem fileTimeText_append_lt_iff {s s' : Int} (h : FourDigitYear s) (h' : FourDigitYear s')
    (u u' : List UInt8) :
    fileTimeText (gmtime s) ++ u < fileTimeText (gmtime s') ++ u' ↔ s < s' ∨ s = s' ∧ u < u' := by
  obtain ⟨hy, hm, hd, hh, hmi, hs⟩ := gmtime_inRange h
  obtain ⟨hy', hm', hd', hh', hmi', hs'⟩ := gmtime_inRange h'
  have hinj : s = s' ↔ (gmtime s).year = (gmtime s').year ∧ (gmtime s).mon = (gmtime s').mon ∧
      (gmtime s).mday = (gmtime s').mday ∧ (gmtime s).hour = (gmtime s').hour ∧
      (gmtime s).min = (gmtime s').min ∧ (gmtime s).sec = (gmtime s').sec :=
    ⟨fun e => by simp [e], fun ⟨e1, e2, e3, e4, e5, e6⟩ => gmtime_inj e1 e2 e3 e4 e5 e6⟩
  unfold fileTimeText
  simp only [List.append_assoc]
  rw [decimal_eq_zeroField hy, decimal_eq_zeroField hy',
    zeroField_append_lt_iff (by omega) ⟨by omega, by omega⟩ ⟨by omega, by omega⟩,
    twoDigits_append_lt_iff (by omega) (by omega), twoDigits_append_lt_iff (by omega) (by omega),
    literal_append_lt_iff, twoDigits_append_lt_iff (by omega) (by omega),
    twoDigits_append_lt_iff (by omega) (by omega), twoDigits_append_lt_iff (by omega) (by omega),
    literal_append_lt_iff, gmtime_lt_iff s s', hinj]
  by_cases hu : u < u'
  · simp only [hu, and_true]
    omega
  · simp only [hu, and_false, or_false]
    omega

namespace LogFile

variable {proc : Process} {l l' : LogFile} {f : AppendFile} {gs : List (List (List UInt8))}
  {g : List (List UInt8)}

theorem getLogFileName_lt_iff (basename : List UInt8) {t t' : Int} (h : FourDigitYear t)
    (h' : FourDigitYear t') :
    getLogFileName proc basename t < getLogFileName proc basename t' ↔ t < t' := by
  unfold getLogFileName
  simp only [List.append_assoc]
  rw [literal_append_lt_iff, fileTimeText_append_lt_iff h h']
  simp [List.lt_irrefl]

theorem Holds.names_increasing (h : Holds proc l f gs g)
    (hyear : ∀ x ∈ l.opened, x.created < 2932897 * 86400) :
    (l.opened.map AppendFile.name).Pairwise (· < ·) := by
  rw [h.opened_eq] at hyear ⊢
  rw [List.pairwise_map]
  refine (List.pairwise_map.mp h.increasing).imp_of_mem fun {x y} hx hy hxy => ?_
  obtain ⟨hx0, hx'⟩ := h.named x hx
  obtain ⟨hy0, hy'⟩ := h.named y hy
  rw [hx', hy']
  exact (getLogFileName_lt_iff _ ⟨by omega, hyear x hx⟩ ⟨by omega, hyear y hy⟩).mpr hxy

/-- There is one order of files with increasing names. -/
theorem eq_of_sorted {fs os : List AppendFile} (hinc : (os.map AppendFile.name).Pairwise (· < ·))
    (hperm : fs.Perm os) (hsorted : (fs.map AppendFile.name).Pairwise (· ≤ ·)) : fs = os := by
  have hnodup : (os.map AppendFile.name).Nodup :=
    hinc.imp fun {a b} hab e => by
      rw [e] at hab
      exact List.lt_irrefl _ hab
  refine hperm.eq_of_pairwise (fun a b ha hb hab hba => ?_) (List.pairwise_map.mp hsorted)
    ((List.pairwise_map.mp hinc).imp fun hab => Std.le_of_lt hab)
  exact List.inj_on_of_nodup_map hnodup (hperm.subset ha) hb (Std.le_antisymm hab hba)

/-- **The log of a directory.** After any run of calls that opens no file after the year 9999 the
names of the files increase in the order in which they were opened, and the files taken in the byte
order of their names give the appended messages in the order of the calls. -/
theorem concat_in_name_order (proc : Process) (basename : List UInt8)
    (rollSize flushInterval checkEveryN now : Int) (hnow : 0 < now) (ops : List Op) (l : LogFile)
    (he : Lts.exec (step proc) (new proc basename rollSize flushInterval checkEveryN now) ops =
      some l)
    (hyear : ∀ f ∈ l.opened, f.created < 2932897 * 86400) (fs : List AppendFile)
    (hperm : fs.Perm l.opened) (hsorted : (fs.map AppendFile.name).Pairwise (· ≤ ·)) :
    (l.opened.map AppendFile.name).Pairwise (· < ·) ∧
      fs.flatMap AppendFile.content = (messages ops).flatten := by
  obtain ⟨l', f, gs, g, he', e, h⟩ :=
    (holds_new basename rollSize flushInterval checkEveryN hnow).exec ops
  obtain rfl : l' = l := Option.some_inj.mp (he'.symm.trans he)
  refine ⟨h.names_increasing hyear, ?_⟩
  rw [eq_of_sorted (h.names_increasing hyear) hperm hsorted, List.flatMap_def, h.opened_eq,
    List.map_append, h.closed, List.map_singleton, h.current]
  rw [show messages ops = gs.flatten ++ g by simpa using e.symm]
  simp [List.flatten_flatten]

/-- Two files, opened on both sides of a change of the year. -/
theorem concat_in_name_order_newYear :
    ∃ l, Lts.exec (step ⟨ascii "host", 7⟩) (new ⟨ascii "host", 7⟩ (ascii "log") 2 3 1 946684799)
        [.append (ascii "old") 946684799 946684800, .append (ascii "new") 946684800 946684800] =
          some l ∧
      ((l.opened.map AppendFile.name).Pairwise (· < ·)) ∧
      l.opened.flatMap AppendFile.content = (messages [.append (ascii "old") 946684799 946684800,
        .append (ascii "new") 946684800 946684800]).flatten := by
  refine ⟨_, rfl, ?_⟩
  exact concat_in_name_order ⟨ascii "host", 7⟩ (ascii "log") 2 3 1 946684799 (by decide)
    [.append (ascii "old") 946684799 946684800, .append (ascii "new") 946684800 946684800] _ rfl
    (by decide) _ (.refl _) (by decide)

/-! ## What is written out -/

/-- The files that stay when the object is destroyed: the stream of the current one is closed. -/
def destroy (l : LogFile) : List AppendFile := l.closed ++ l.file.toList.map AppendFile.flush

/-- Everything the stream accepted is written out. -/
def Flushed (f : AppendFile) : Prop := f.flushed = f.content.length

def ClosedFlushed (l : LogFile) : Prop := ∀ f ∈ l.closed, Flushed f

theorem flushed_flush (f : AppendFile) : Flushed f.flush := rfl

theorem ClosedFlushed.rollFile (h : ClosedFlushed l) (now : Int) :
    ClosedFlushed (rollFile proc l now).1 := by
  unfold LogFile.rollFile
  split
  · intro f hf
    rcases List.mem_append.mp hf with hf | hf
    · exact h f hf
    · obtain ⟨f', -, rfl⟩ := List.mem_map.mp hf
      exact flushed_flush f'
  · exact h

theorem closed_isNeedRollFile {now : Int} {r : LogFile × Bool} (h : l.isNeedRollFile now = some r) :
    r.1.closed = l.closed := by
  obtain ⟨f, hf, -⟩ := Option.map_eq_some_iff.mp h
  rcases @isNeedRollFile_cases l f now hf with ⟨-, e⟩ | ⟨-, -, e⟩ | ⟨-, -, -, e⟩ |
    ⟨-, -, -, -, e⟩ | ⟨-, -, -, -, e⟩ <;>
  · rw [e] at h
    cases h
    rfl

theorem ClosedFlushed.step (h : ClosedFlushed l) {op : Op} (hs : LogFile.step proc l op = some l') :
    ClosedFlushed l' := by
  cases op with
  | append logline now now' =>
    obtain ⟨f, hf, hs⟩ := Option.bind_eq_some_iff.mp hs
    obtain ⟨f1, -, hs⟩ := Option.bind_eq_some_iff.mp hs
    obtain ⟨r, hr, hs⟩ := Option.bind_eq_some_iff.mp hs
    have hr' : ClosedFlushed r.1 := by
      unfold ClosedFlushed
      rw [closed_isNeedRollFile hr]
      exact h
    cases hs
    split
    · exact hr'.rollFile now'
    · exact hr'
  | flush =>
    obtain ⟨f, -, rfl⟩ := Option.map_eq_some_iff.mp hs
    exact h
  | rollFile now =>
    cases hs
    exact h.rollFile now

theorem closedFlushed_new (basename : List UInt8) (rollSize flushInterval checkEveryN now : Int) :
    ClosedFlushed (new proc basename rollSize flushInterval checkEveryN now) := by
  unfold new
  exact ClosedFlushed.rollFile (fun f hf => by cases hf) now

/-- Closing a stream changes no more than what is written out. -/
theorem map_destroy {β : Type} (p : AppendFile → β) (hp : ∀ f : AppendFile, p f.flush = p f)
    (l : LogFile) : l.destroy.map p = l.opened.map p := by
  simp only [destroy, opened, List.map_append, List.map_map]
  congr 2
  funext f
  exact hp f

theorem ClosedFlushed.destroy (h : ClosedFlushed l) : ∀ f ∈ l.destroy, Flushed f := by
  intro f hf
  rcases List.mem_append.mp hf with hf | hf
  · exact h f hf
  · obtain ⟨f', -, rfl⟩ := List.mem_map.mp hf
    exact flushed_flush f'

/-- After `flush` every file is written out. -/
theorem ClosedFlushed.flush (h : ClosedFlushed l) (hs : l.flush = some l') :
    ∀ f ∈ l'.opened, Flushed f := by
  obtain ⟨f, -, rfl⟩ := Option.map_eq_some_iff.mp hs
  intro x hx
  rcases List.mem_append.mp hx with hx | hx
  · exact h x hx
  · rw [List.mem_singleton.mp hx]
    exact flushed_flush f

/-- What a file has at least if the process ends without closing it. -/
def survives (l : LogFile) : List UInt8 := l.opened.flatMap fun f => f.content.take f.flushed

/-- The part of the current file that is written out. -/
def WrittenOut (l : LogFile) (f : AppendFile) : Prop :=
  l.file = some f ∧ f.flushed ≤ f.content.length

theorem survives_eq (hf : l.file = some f) :
    l.survives = l.closed.flatMap (fun f => f.content.take f.flushed) ++
      f.content.take f.flushed := by
  rw [survives, opened, hf, List.flatMap_append]
  simp

/-- The current file goes on, and nothing that is written out is lost. -/
theorem survives_mono (hf : l.file = some f) {f' : AppendFile} (hf' : l'.file = some f')
    (hclosed : l'.closed = l.closed)
    (hkept : f.content.take f.flushed <+: f'.content.take f'.flushed) :
    l.survives <+: l'.survives := by
  rw [survives_eq hf, survives_eq hf', hclosed]
  exact (List.prefix_append_right_inj _).mpr hkept

theorem survives_rollFile (hf : l.file = some f) (now : Int) :
    l.survives <+: (rollFile proc l now).1.survives := by
  by_cases hnow : l.lastRoll < now
  · rw [rollFile_accepted hf hnow, survives_eq hf]
    show _ <+: List.flatMap _ ((l.closed ++ [f.flush]) ++ [AppendFile.new _ now])
    rw [List.flatMap_append, List.flatMap_append, List.append_assoc]
    refine (List.prefix_append_right_inj _).mpr ?_
    simp only [List.flatMap_singleton, AppendFile.flush, List.take_length]
    exact (List.take_prefix _ _).trans (List.prefix_append _ _)
  · rw [rollFile_refused (by omega)]

theorem writtenOut_rollFile (h : l.WrittenOut f) (now : Int) :
    ∃ f', (rollFile proc l now).1.WrittenOut f' := by
  by_cases hnow : l.lastRoll < now
  · rw [rollFile_accepted h.1 hnow]
    exact ⟨_, rfl, Nat.le_refl _⟩
  · rw [rollFile_refused (by omega)]
    exact ⟨f, h⟩

/-- **One call** leaves what is written out. -/
theorem survives_step (h : l.WrittenOut f) {op : Op} (hs : LogFile.step proc l op = some l') :
    l.survives <+: l'.survives ∧ ∃ f', l'.WrittenOut f' := by
  obtain ⟨hf, hle⟩ := h
  cases op with
  | append logline now now' =>
    have hw : WrittenOut { l with file := some (written f logline) } (written f logline) := by
      refine ⟨rfl, ?_⟩
      show f.flushed ≤ (f.content ++ logline).length
      rw [List.length_append]
      omega
    have hsame : l.survives <+: survives { l with file := some (written f logline) } := by
      refine survives_mono hf rfl rfl ?_
      show f.content.take f.flushed <+: (f.content ++ logline).take f.flushed
      rw [List.take_append_of_le_length hle]
    -- the decision changes counters and writes out more
    have decided : ∀ l1 f1 (need : Bool),
        some (if need then (LogFile.rollFile proc l1 now').1 else l1) = some l' →
        WrittenOut l1 f1 → survives { l with file := some (written f logline) } <+: l1.survives →
          l.survives <+: l'.survives ∧ ∃ f', l'.WrittenOut f' := by
      intro l1 f1 need hl' h1 hsub
      cases hl'
      cases need with
      | false => exact ⟨hsame.trans hsub, f1, h1⟩
      | true =>
        exact ⟨(hsame.trans hsub).trans (survives_rollFile h1.1 now'), writtenOut_rollFile h1 now'⟩
    replace hs := (append_acceptAll hf logline now now').symm.trans hs
    rcases isNeedRollFile_cases hw.1 with ⟨-, e⟩ | ⟨-, -, e⟩ | ⟨-, -, -, e⟩ | ⟨-, -, -, -, e⟩ |
      ⟨-, -, -, -, e⟩ <;>
      rw [e, Option.map_some] at hs
    · exact decided _ _ true hs hw (List.prefix_refl _)
    · exact decided _ _ false hs hw (List.prefix_refl _)
    · exact decided _ _ true hs hw (List.prefix_refl _)
    · refine decided _ (written f logline).flush false hs ⟨rfl, Nat.le_refl _⟩
        (survives_mono rfl rfl rfl ?_)
      simp only [AppendFile.flush, List.take_length]
      exact List.take_prefix _ _
    · exact decided _ _ false hs hw (List.prefix_refl _)
  | flush =>
    replace hs : l.flush = some l' := hs
    rw [LogFile.flush, hf, Option.map_some, Option.some_inj] at hs
    subst hs
    refine ⟨survives_mono hf rfl rfl ?_, _, rfl, Nat.le_refl _⟩
    simp only [AppendFile.flush, List.take_length]
    exact List.take_prefix _ _
  | rollFile now =>
    cases hs
    exact ⟨survives_rollFile hf now, writtenOut_rollFile ⟨hf, hle⟩ now⟩

/-- Where every file is written out, all of the log survives. -/
theorem survives_of_flushed (h : ∀ f ∈ l.opened, Flushed f) :
    l.survives = l.opened.flatMap AppendFile.content := by
  unfold survives
  refine List.flatMap_congr fun f hf => ?_
  rw [show f.flushed = f.content.length from h f hf, List.take_length]

end LogFile

end MultiThreadLog
