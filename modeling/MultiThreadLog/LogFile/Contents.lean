import MultiThreadLog.LogFile.Basic

/-!
# The contents of the log files

A run of one `LogFile` is a list of `append`, `flush` and `rollFile` calls with arbitrary clock
readings. `Holds` is the invariant: every closed file is a group of whole messages, the current
file holds the group still growing, and each file is named after the second it was created in,
which is the second of the roll that opened it. A roll needs a later second than the last one,
so the creation seconds increase however the clock jumps, and the names are distinct.
-/

namespace MultiThreadLog

open Bytes Numeral

namespace LogFile

/-- A call, with the clock readings it may make. -/
inductive Op where
  | append (logline : List UInt8) (now now' : Int)
  | flush
  | rollFile (now : Int)

/-- The messages appended. -/
def Op.messages : Op → List (List UInt8)
  | .append logline _ _ => [logline]
  | _ => []

def messages (ops : List Op) : List (List UInt8) := ops.flatMap Op.messages

def step (proc : Process) (l : LogFile) : Op → Option LogFile
  | .append logline now now' =>
    l.append proc logline logline.length (AppendFile.acceptAll logline) now now'
  | .flush => l.flush
  | .rollFile now => some (rollFile proc l now).1

/-- The files of `l`: `closed` holds the groups `gs` of messages, the current file `f` the
group `g`. -/
structure Holds (proc : Process) (l : LogFile) (f : AppendFile) (gs : List (List (List UInt8)))
    (g : List (List UInt8)) : Prop where
  file : l.file = some f
  closed : l.closed.map AppendFile.content = gs.map List.flatten
  current : f.content = g.flatten
  increasing : ((l.closed ++ [f]).map AppendFile.created).Pairwise (· < ·)
  last : f.created = l.lastRoll
  named : ∀ f' ∈ l.closed ++ [f],
    0 < f'.created ∧ f'.name = getLogFileName proc l.basename f'.created

variable {proc : Process} {l l' : LogFile} {f f' : AppendFile} {gs : List (List (List UInt8))}
  {g : List (List UInt8)}

theorem Holds.opened_eq (h : Holds proc l f gs g) : l.opened = l.closed ++ [f] := by
  rw [opened, h.file]
  rfl

/-- A change of counters, flush marks and the content of the current file. -/
theorem Holds.rewrite {g' : List (List UInt8)} (h : Holds proc l f gs g) (hfile : l'.file = some f')
    (hclosed : l'.closed = l.closed) (hroll : l'.lastRoll = l.lastRoll)
    (hbase : l'.basename = l.basename) (hname : f'.name = f.name)
    (hcreated : f'.created = f.created) (hcontent : f'.content = g'.flatten) :
    Holds proc l' f' gs g' where
  file := hfile
  closed := by rw [hclosed, h.closed]
  current := hcontent
  increasing := by
    have := h.increasing
    rw [List.map_append] at this ⊢
    simpa [hclosed, hcreated] using this
  last := by rw [hcreated, h.last, hroll]
  named x hx := by
    rw [hclosed] at hx
    rw [hbase]
    rcases List.mem_append.mp hx with hx | hx
    · exact h.named x (List.mem_append_left _ hx)
    · rw [List.mem_singleton.mp hx, hname, hcreated]
      exact h.named f (by simp)

/-- **A roll** closes the current group, or is refused. -/
theorem Holds.rollFile (h : Holds proc l f gs g) (now : Int) :
    ∃ f' gs' g', gs'.flatten ++ g' = gs.flatten ++ g ∧
      Holds proc (rollFile proc l now).1 f' gs' g' := by
  by_cases hnow : l.lastRoll < now
  · refine ⟨.new (getLogFileName proc l.basename now) now, gs ++ [g], [], by simp, ?_⟩
    rw [rollFile_accepted h.file hnow]
    have hflush : ∀ x ∈ l.closed ++ [f.flush], ∃ y ∈ l.closed ++ [f],
        x.name = y.name ∧ x.created = y.created := fun x hx => by
      rcases List.mem_append.mp hx with hx | hx
      · exact ⟨x, List.mem_append_left _ hx, rfl, rfl⟩
      · exact ⟨f, by simp, by rw [List.mem_singleton.mp hx]; exact ⟨rfl, rfl⟩⟩
    have hlast : f.created = l.lastRoll := h.last
    refine ⟨rfl, ?_, rfl, ?_, rfl, fun x hx => ?_⟩
    · rw [List.map_append, List.map_append, h.closed]
      simp [AppendFile.flush, h.current]
    · have hmap : (l.closed ++ [f.flush]).map AppendFile.created =
          (l.closed ++ [f]).map AppendFile.created := by simp [AppendFile.flush]
      rw [List.map_append, hmap, List.pairwise_append]
      refine ⟨h.increasing, List.pairwise_singleton _ _, fun a ha b hb => ?_⟩
      rw [List.mem_singleton.mp hb]
      -- every earlier file was created at the latest in the second of the last roll
      have hle : a ≤ f.created := by
        rw [List.map_append, List.mem_append] at ha
        have hp := h.increasing
        rw [List.map_append, List.pairwise_append] at hp
        rcases ha with ha | ha
        · exact Int.le_of_lt (hp.2.2 a ha _ (by simp))
        · simp at ha; omega
      show a < now
      omega
    · rcases List.mem_append.mp hx with hx | hx
      · obtain ⟨y, hy, hn, hc⟩ := hflush x hx
        rw [hn, hc]
        exact h.named y hy
      · rw [List.mem_singleton.mp hx]
        have hpos : 0 < f.created := (h.named f (by simp)).1
        exact ⟨show 0 < now by omega, rfl⟩
  · rw [rollFile_refused (by omega)]
    exact ⟨f, gs, g, rfl, h⟩

theorem Holds.append (h : Holds proc l f gs g) (logline : List UInt8) (now now' : Int) :
    ∃ l' f' gs' g', step proc l (.append logline now now') = some l' ∧
      gs'.flatten ++ g' = gs.flatten ++ g ++ [logline] ∧ Holds proc l' f' gs' g' := by
  have hw : Holds proc { l with file := some (written f logline) } (written f logline) gs
      (g ++ [logline]) :=
    h.rewrite rfl rfl rfl rfl rfl rfl (by simp [written, h.current])
  have roll : ∀ l1 : LogFile, l1.file = some (written f logline) → l1.closed = l.closed →
      l1.lastRoll = l.lastRoll → l1.basename = l.basename →
      ∃ l' f' gs' g', some (LogFile.rollFile proc l1 now').1 = some l' ∧
        gs'.flatten ++ g' = gs.flatten ++ g ++ [logline] ∧ Holds proc l' f' gs' g' := by
    intro l1 h1 h2 h3 h4
    have h5 : Holds proc l1 (written f logline) gs (g ++ [logline]) :=
      hw.rewrite h1 h2 h3 h4 rfl rfl hw.current
    obtain ⟨f', gs', g', e, h'⟩ := h5.rollFile now'
    exact ⟨_, f', gs', g', rfl, by rw [e, List.append_assoc], h'⟩
  have keep : ∀ l1 f1, l1.file = some f1 → l1.closed = l.closed → l1.lastRoll = l.lastRoll →
      l1.basename = l.basename → f1.name = f.name → f1.created = f.created →
      f1.content = (written f logline).content →
      ∃ l' f' gs' g', some l1 = some l' ∧
        gs'.flatten ++ g' = gs.flatten ++ g ++ [logline] ∧ Holds proc l' f' gs' g' := by
    intro l1 f1 h1 h2 h3 h4 h5 h6 h7
    exact ⟨l1, f1, gs, g ++ [logline], rfl, by rw [List.append_assoc],
      hw.rewrite h1 h2 h3 h4 h5 h6 (h7.trans hw.current)⟩
  show ∃ l' f' gs' g',
    l.append proc logline logline.length (AppendFile.acceptAll logline) now now' = some l' ∧ _
  rw [append_acceptAll h.file]
  rcases isNeedRollFile_cases hw.file with ⟨-, e⟩ | ⟨-, -, e⟩ | ⟨-, -, -, e⟩ | ⟨-, -, -, -, e⟩ |
    ⟨-, -, -, -, e⟩ <;>
    rw [e, Option.map_some]
  · exact roll _ rfl rfl rfl rfl
  · exact keep _ _ rfl rfl rfl rfl rfl rfl rfl
  · exact roll _ rfl rfl rfl rfl
  · exact keep _ _ rfl rfl rfl rfl rfl rfl rfl
  · exact keep _ _ rfl rfl rfl rfl rfl rfl rfl

/-- **One call** keeps the invariant and adds its messages at the end. -/
theorem Holds.step (h : Holds proc l f gs g) (op : Op) :
    ∃ l' f' gs' g', LogFile.step proc l op = some l' ∧
      gs'.flatten ++ g' = gs.flatten ++ g ++ op.messages ∧ Holds proc l' f' gs' g' := by
  cases op with
  | append logline now now' => exact h.append logline now now'
  | flush =>
    refine ⟨{ l with file := some f.flush }, f.flush, gs, g, ?_, by simp [Op.messages],
      h.rewrite rfl rfl rfl rfl rfl rfl h.current⟩
    simp [LogFile.step, LogFile.flush, h.file]
  | rollFile now =>
    obtain ⟨f', gs', g', e, h'⟩ := h.rollFile now
    exact ⟨_, f', gs', g', rfl, by rw [e]; simp [Op.messages], h'⟩

theorem Holds.exec (h : Holds proc l f gs g) (ops : List Op) :
    ∃ l' f' gs' g', Lts.exec (LogFile.step proc) l ops = some l' ∧
      gs'.flatten ++ g' = gs.flatten ++ g ++ messages ops ∧ Holds proc l' f' gs' g' := by
  induction ops generalizing l f gs g with
  | nil => exact ⟨l, f, gs, g, rfl, by simp [messages], h⟩
  | cons op ops ih =>
    obtain ⟨l1, f1, gs1, g1, hs, e1, h1⟩ := h.step op
    obtain ⟨l2, f2, gs2, g2, he, e2, h2⟩ := ih h1
    refine ⟨l2, f2, gs2, g2, by rw [Lts.exec, hs, Option.bind_some, he], ?_, h2⟩
    rw [e2, e1, messages, messages, List.flatMap_cons, List.append_assoc]

theorem holds_new (basename : List UInt8) (rollSize flushInterval checkEveryN : Int) {now : Int}
    (h : 0 < now) :
    Holds proc (new proc basename rollSize flushInterval checkEveryN now)
      (.new (getLogFileName proc basename now) now) [] [] := by
  unfold new LogFile.rollFile
  rw [if_pos (by exact h)]
  refine ⟨rfl, rfl, rfl, List.pairwise_singleton _ _, rfl, fun x hx => ?_⟩
  rw [List.nil_append, Option.toList_none, List.map_nil, List.mem_append, List.mem_singleton] at hx
  rcases hx with hx | rfl
  · cases hx
  · exact ⟨h, rfl⟩

/-- Names made from different seconds up to year 9999 differ. -/
theorem getLogFileName_inj {basename : List UInt8} {t t' : Int} (h : FourDigitYear t)
    (h' : FourDigitYear t') (e : getLogFileName proc basename t = getLogFileName proc basename t') :
    t = t' := by
  simp only [getLogFileName, List.append_assoc] at e
  replace e := List.append_cancel_left e
  rw [List.append_cancel_right_eq] at e
  exact fileTimeText_inj h h' e

theorem Holds.names_nodup (h : Holds proc l f gs g)
    (hyear : ∀ x ∈ l.closed ++ [f], x.created < 2932897 * 86400) :
    ((l.closed ++ [f]).map AppendFile.name).Nodup := by
  rw [List.nodup_iff_pairwise_ne, List.pairwise_map]
  refine (List.pairwise_map.mp h.increasing).imp_of_mem fun {x y} hx hy hxy hname => ?_
  obtain ⟨hx0, hx'⟩ := h.named x hx
  obtain ⟨hy0, hy'⟩ := h.named y hy
  have hxf : FourDigitYear x.created := ⟨by omega, hyear x hx⟩
  have hyf : FourDigitYear y.created := ⟨by omega, hyear y hy⟩
  rw [hx', hy'] at hname
  exact absurd (getLogFileName_inj hxf hyf hname) (by omega)

/-- **The log files.** Every run of calls is defined; the opened files, in order, hold the
appended messages in order, each message whole in one file; the creation seconds increase, and
up to year 9999 so do the names differ. -/
theorem files_hold_messages (proc : Process) (basename : List UInt8)
    (rollSize flushInterval checkEveryN now : Int) (hnow : 0 < now) (ops : List Op) :
    ∃ l, Lts.exec (step proc) (new proc basename rollSize flushInterval checkEveryN now) ops =
        some l ∧
      (∃ groups : List (List (List UInt8)), groups.flatten = messages ops ∧
        l.opened.map AppendFile.content = groups.map List.flatten) ∧
      (l.opened.map AppendFile.created).Pairwise (· < ·) ∧
      ((∀ f ∈ l.opened, f.created < 2932897 * 86400) → (l.opened.map AppendFile.name).Nodup) := by
  obtain ⟨l, f, gs, g, he, e, h⟩ :=
    (holds_new basename rollSize flushInterval checkEveryN hnow).exec ops
  refine ⟨l, he, ⟨gs ++ [g], by simpa using e, ?_⟩, by rw [h.opened_eq]; exact h.increasing, ?_⟩
  · rw [h.opened_eq]
    simp [h.closed, h.current]
  · intro hyear
    rw [h.opened_eq] at hyear ⊢
    exact h.names_nodup hyear

/-- Two messages over the roll size in one second, a clock that steps back, and a roll. -/
theorem files_hold_messages_clockBack :
    0 < (86400 : Int) ∧
    ∃ l, Lts.exec (step ⟨ascii "host", 7⟩) (new ⟨ascii "host", 7⟩ (ascii "test") 2 3 1 86400)
        [.append (ascii "abc") 86400 86400, .append (ascii "de") 86399 86390, .flush,
          .rollFile 86401] = some l ∧
      (∃ groups : List (List (List UInt8)),
        groups.flatten = messages [.append (ascii "abc") 86400 86400,
          .append (ascii "de") 86399 86390, .flush, .rollFile 86401] ∧
        l.opened.map AppendFile.content = groups.map List.flatten) ∧
      (l.opened.map AppendFile.created).Pairwise (· < ·) ∧
      ((∀ f ∈ l.opened, f.created < 2932897 * 86400) → (l.opened.map AppendFile.name).Nodup) :=
  ⟨by decide, files_hold_messages ⟨ascii "host", 7⟩ (ascii "test") 2 3 1 86400 (by decide) _⟩

end LogFile

end MultiThreadLog
