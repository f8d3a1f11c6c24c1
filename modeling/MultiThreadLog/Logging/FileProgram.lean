import MultiThreadLog.LogFile.Files
import MultiThreadLog.LogFile.Shared
import MultiThreadLog.Logging.Program

/-!
# A program that logs into a `LogFile`

`g_output` and `g_flush` call `append` and `flush` of one `LogFile` that is thread safe, as the
functions of the tests do; a call is one step, which is what threads see of it
(`LogFile.calls_one_by_one`). Nothing is dropped on this way, and here `g_flush` means the log: when
a `FATAL` statement comes to `abort()`, which closes no stream, its record and all that was handed
on before the flush are in the files (`fatal_survives`).
-/

namespace MultiThreadLog

open Bytes

/-- What a call of `append` meets: the answers of `fwrite_unlocked`, and the clock. -/
structure FileEnv where
  rs : List FwriteResult
  now : Int
  now' : Int

/-- `outputFunc` and `flushFunc`. -/
def outputFunc (proc : Process) : Sink where
  State := LogFile
  Env := FileEnv
  Other := Empty
  output l m env := l.append proc m.logline m.len env.rs env.now env.now'
  flush l := l.flush
  other _ o := nomatch o

/-! ## One call -/

/-- The loop reads the first `len` bytes only. -/
theorem AppendFile.appendLoop_take {logline content : List UInt8} {len written : Nat}
    {rs : List FwriteResult} (hw : written ≤ len) :
    appendLoop (logline.take len) len written content rs =
      appendLoop logline len written content rs := by
  induction rs generalizing written content with
  | nil => rfl
  | cons r rs ih =>
    have hpart : ((logline.take len).drop written).take (min r.accepted (len - written)) =
        (logline.drop written).take (min r.accepted (len - written)) := by
      rw [List.drop_take, List.take_take, Nat.min_eq_left (Nat.min_le_right ..)]
    unfold appendLoop
    dsimp only
    rw [hpart, ih (by omega)]

/-- The length of a message that is taken whole is that of its bytes. -/
theorem Msg.Whole.bytes_length {m : Msg} (h : m.Whole) (htext : m.text = m.bytes) :
    m.bytes.length = m.len := by
  have hlen : m.text.length = m.len := by
    have hle := h.len_le
    unfold strlen at hle
    rw [Msg.text, List.length_take, List.length_append, List.length_singleton]
    omega
  rw [← htext, hlen]

namespace LogFile

variable {proc : Process} {l l' : LogFile} {ts : List (List UInt8)}

/-- `l` holds the messages `ts`, what it has replaced is written out, and of the current file the
part that it says. -/
structure Stores (proc : Process) (l : LogFile) (ts : List (List UInt8)) : Prop where
  closed : l.ClosedFlushed
  holds : ∃ f gs g, Holds proc l f gs g ∧ gs.flatten ++ g = ts
  written : ∃ f, l.WrittenOut f

theorem stores_new {now : Int} (basename : List UInt8) (rollSize flushInterval checkEveryN : Int)
    (hnow : 0 < now) :
    Stores proc (.new proc basename rollSize flushInterval checkEveryN now) [] := by
  have hholds : Holds proc (.new proc basename rollSize flushInterval checkEveryN now) _ [] [] :=
    holds_new basename rollSize flushInterval checkEveryN hnow
  exact ⟨closedFlushed_new basename rollSize flushInterval checkEveryN now, ⟨_, _, _, hholds, rfl⟩,
    _, hholds.file, Nat.le_refl _⟩

theorem Stores.step (h : Stores proc l ts) {op : Op} (hs : LogFile.step proc l op = some l') :
    Stores proc l' (ts ++ op.messages) ∧ l.survives <+: l'.survives := by
  obtain ⟨hclosed, ⟨f, gs, g, hholds, e⟩, f1, hwritten⟩ := h
  obtain ⟨l1, f', gs', g', hs', e', hholds'⟩ := hholds.step op
  obtain rfl : l1 = l' := Option.some_inj.mp (hs'.symm.trans hs)
  obtain ⟨hsub, hwritten'⟩ := survives_step hwritten hs
  exact ⟨⟨hclosed.step hs, ⟨f', gs', g', hholds', by rw [e', e]⟩, hwritten'⟩, hsub⟩

/-- The files hold the messages whole. -/
theorem Stores.groups (h : Stores proc l ts) : ∃ groups : List (List (List UInt8)),
    groups.flatten = ts ∧ l.opened.map AppendFile.content = groups.map List.flatten := by
  obtain ⟨f, gs, g, hholds, e⟩ := h.holds
  exact ⟨gs ++ [g], by simpa using e, by simp [hholds.opened_eq, hholds.closed, hholds.current]⟩

theorem Stores.contents (h : Stores proc l ts) :
    l.opened.flatMap AppendFile.content = ts.flatten := by
  obtain ⟨groups, rfl, hcontents⟩ := h.groups
  rw [List.flatMap_def, hcontents, List.flatten_flatten]

/-- No more survives than what was appended. -/
theorem Stores.survives (h : Stores proc l ts) : l.survives <+: ts.flatten := by
  obtain ⟨f, hf, -⟩ := h.written
  rw [← h.contents, opened, hf, List.flatMap_append, survives_eq hf,
    List.flatMap_congr fun x hx => by
      rw [show x.flushed = x.content.length from h.closed x hx, List.take_length]]
  refine (List.prefix_append_right_inj _).mpr ?_
  simpa using List.take_prefix f.flushed f.content

/-- A message that is taken whole is appended as its bytes. -/
theorem step_of_append {m : Msg} {env : FileEnv} (hm : m.Whole) (htext : m.text = m.bytes)
    (hrs : ∀ r ∈ env.rs, r.error = false)
    (h : l.append proc m.logline m.len env.rs env.now env.now' = some l') :
    LogFile.step proc l (.append m.bytes env.now env.now') = some l' := by
  have hlen := hm.bytes_length htext
  refine step_of_perform (o := .append m.bytes m.len env.rs env.now env.now') ⟨hlen.symm, hrs⟩ ?_
  rw [← h]
  cases hf : l.file with
  | none =>
    show l.append .. = l.append ..
    unfold append
    rw [hf]
    rfl
  | some f =>
    show l.append .. = l.append ..
    rw [append_eq hf, append_eq hf, AppendFile.append, AppendFile.append, Msg.bytes,
      AppendFile.appendLoop_take (Nat.zero_le _)]

end LogFile

/-! ## The program -/

namespace Program

variable {strerror_tl : Int32 → List UInt8} {proc : Process} {tz : TimeZone}
  {s s' : Program (outputFunc proc)} {a : Act (outputFunc proc)}
  {acts : List (Act (outputFunc proc))} {kept : List (Tid × List UInt8)}

/-- A stream that reports no error. -/
def SoundEnv (env : FileEnv) : Prop := ∀ r ∈ env.rs, r.error = false

/-- The file holds what was handed on. The records `kept`, with all of a thread that is at `abort`,
are written out. -/
structure Saved (proc : Process) (s : Program (outputFunc proc))
    (kept : List (Tid × List UInt8)) : Prop where
  stores : s.sink.Stores proc (s.handed.map Prod.snd)
  first : kept <+: s.handed
  survive : (kept.map Prod.snd).flatten <+: s.sink.survives
  aborting : ∀ tid, s.stage tid = .aborting → ofThread tid kept = ofThread tid s.handed

/-- **One step** keeps the records that are written out, and `g_flush` adds all the others. -/
theorem Saved.step (h : Saved proc s kept) (hinv : Inv strerror_tl tz acts s)
    (ha : Sane tz SoundEnv (fun _ => True) a) (hs : Move strerror_tl s a s') :
    ∃ kept', Saved proc s' kept' := by
  obtain ⟨hstores, hkept, hsurvive, haborting⟩ := h
  cases hs with
  | setLogLevel | skip | abort => exact ⟨kept, hstores, hkept, hsurvive, haborting⟩
  | @log tid c =>
    refine ⟨kept, hstores, hkept, hsurvive, fun t ht => haborting t ?_⟩
    by_cases htt : t = tid
    · subst htt
      simp at ht
    · simpa [Function.update_of_ne htt] using ht
  | @output tid env m fatal sink hm happ =>
    obtain ⟨hwhole, htext⟩ := hinv.stage tid m fatal hm
    obtain ⟨hstores', hsub⟩ := hstores.step (LogFile.step_of_append hwhole htext ha happ)
    refine ⟨kept, ?_, hkept.trans (List.prefix_append _ _), hsurvive.trans hsub, fun t ht => ?_⟩
    · rw [List.map_append]
      exact hstores'
    · by_cases htt : t = tid
      · subst htt
        cases fatal <;> simp at ht
      · rw [ofThread_snoc, if_neg (Ne.symm htt), List.append_nil]
        exact haborting t (by simpa [Function.update_of_ne htt] using ht)
  | @flush tid sink hf happ =>
    have hs' : LogFile.step proc s.sink .flush = some sink := happ
    obtain ⟨hstores', -⟩ := hstores.step hs'
    rw [show LogFile.Op.messages .flush = [] from rfl, List.append_nil] at hstores'
    have hall : sink.survives = (s.handed.map Prod.snd).flatten :=
      (LogFile.survives_of_flushed (hstores.closed.flush happ)).trans hstores'.contents
    exact ⟨s.handed, hstores', List.prefix_refl _, hall ▸ List.prefix_refl _, fun _ _ => rfl⟩
  | @other o => cases o

theorem saved_exec {x0 : LogFile} (h0 : x0.Stores proc [])
    (hsane : ∀ a ∈ acts, Sane tz SoundEnv (fun _ => True) a)
    (h : Lts.exec (step strerror_tl) (new tz x0) acts = some s) : ∃ kept, Saved proc s kept := by
  refine Lts.exec_inv (P := fun acts s => (∀ a ∈ acts, Sane tz SoundEnv (fun _ => True) a) →
    ∃ kept, Saved proc s kept) (fun _ => ?_) (fun acts s a s' he ih hs hsane => ?_) h hsane
  · exact ⟨[], h0, List.prefix_refl _, List.nil_prefix, fun _ _ => rfl⟩
  · have hsane' : ∀ b ∈ acts, Sane tz SoundEnv (fun _ => True) b :=
      fun b hb => hsane b (List.mem_append_left _ hb)
    obtain ⟨kept, hkept⟩ := ih hsane'
    exact hkept.step (inv_exec hsane' he) (hsane a (List.mem_append_right _ List.mem_cons_self))
      (step_move hs)

/-- What a program that logs into a `LogFile` has done. -/
structure Filed (strerror_tl : Int32 → List UInt8) (tz : TimeZone)
    (acts : List (Act (outputFunc proc))) (s : Program (outputFunc proc)) : Prop where
  made : List.Forall₂ (Made strerror_tl tz) (calls .INFO acts) s.made
  order : ∀ tid, ofThread tid s.made = ofThread tid s.handed ++ (s.stage tid).pending
  /-- All records handed on are in the files, whole and in that order. -/
  contents : ∃ groups : List (List (List UInt8)),
    groups.flatten = s.handed.map Prod.snd ∧
    s.sink.opened.map AppendFile.content = groups.map List.flatten
  /-- The end of the program leaves a first part of them, with all that the threads at `abort`
  made. -/
  saved : ∃ kept, kept <+: s.handed ∧ (kept.map Prod.snd).flatten <+: s.sink.survives ∧
    s.sink.survives <+: (s.handed.map Prod.snd).flatten ∧
    ∀ tid, s.stage tid = .aborting → ofThread tid kept = ofThread tid s.made
  /-- It is a `FATAL` statement that ends it. -/
  ended : s.aborted = true → ∃ tid c, s.stage tid = .aborting ∧
    (ofThread tid (calls .INFO acts)).getLast? = some c ∧ c.fatal = true

/-- **`FATAL` statements and the log**, in every run of any number of threads in which no write
fails: `g_flush` leaves nothing behind that was handed on before it. -/
theorem fatal_survives (strerror_tl : Int32 → List UInt8) (proc : Process) (basename : List UInt8)
    (rollSize flushInterval checkEveryN now : Int) (hnow : 0 < now) (tz : TimeZone)
    (acts : List (Act (outputFunc proc)))
    (hsane : ∀ a ∈ acts, Sane tz SoundEnv (fun _ => True) a) (s : Program (outputFunc proc))
    (he : Lts.exec (step strerror_tl)
      (new tz (LogFile.new proc basename rollSize flushInterval checkEveryN now)) acts = some s) :
    Filed strerror_tl tz acts s := by
  have hinv := inv_exec hsane he
  have hending := ending_exec he
  obtain ⟨kept, hkept⟩ := saved_exec
    (LogFile.stores_new basename rollSize flushInterval checkEveryN hnow) hsane he
  refine ⟨hinv.made, hinv.order, hkept.stores.groups,
    ⟨kept, hkept.first, hkept.survive, hkept.stores.survives, fun tid htid => ?_⟩, fun hab => ?_⟩
  · rw [hkept.aborting tid htid, hinv.order tid, htid]
    exact (List.append_nil _).symm
  · obtain ⟨tid, htid⟩ := hending.aborted hab
    obtain ⟨c, hc, hfatal⟩ := hending.last tid (by rw [htid]; rfl)
    exact ⟨tid, c, htid, hc, hfatal⟩

/-- The other thread has a record of its own between the `FATAL` record and `g_flush`, and one that
it never hands on. -/
def lastWords : List (Act (outputFunc ⟨ascii "host", 7⟩)) :=
  [.log 5 (hiCall .LOG_INFO), .log 6 (hiCall .LOG_FATAL),
    .output 6 (FileEnv.mk [⟨9, false⟩, ⟨1000, false⟩] 129600 129600),
    .output 5 (FileEnv.mk [⟨1000, false⟩] 129600 129600), .flush 6,
    .log 5 (hiCall .LOG_WARN), .abort 6]

theorem sane_lastWords : ∀ a ∈ lastWords, Sane .none SoundEnv (fun _ => True) a := by
  intro a ha
  simp only [lastWords, List.mem_cons, List.not_mem_nil, or_false] at ha
  rcases ha with rfl | rfl | rfl | rfl | rfl | rfl | rfl
  · exact sane_hiCall _
  · exact sane_hiCall _
  · show ∀ r ∈ [⟨9, false⟩, ⟨1000, false⟩], FwriteResult.error r = false
    simp
  · show ∀ r ∈ [⟨1000, false⟩], FwriteResult.error r = false
    simp
  · trivial
  · exact sane_hiCall _
  · trivial

theorem fatal_survives_lastWords :
    ∃ s, Lts.exec (step fun _ => []) (new .none (LogFile.new ⟨ascii "host", 7⟩ (ascii "log") 1000 3
        1024 129600)) lastWords = some s ∧
      Filed (fun _ => []) .none lastWords s := by
  have hsome : (Lts.exec (step fun _ => []) (new .none (LogFile.new ⟨ascii "host", 7⟩ (ascii "log")
      1000 3 1024 129600)) lastWords).isSome = true := by decide +kernel
  obtain ⟨s, he⟩ := Option.isSome_iff_exists.mp hsome
  exact ⟨s, he, fatal_survives (fun _ => []) ⟨ascii "host", 7⟩ (ascii "log") 1000 3 1024 129600
    (by decide) .none lastWords sane_lastWords s he⟩

end Program

end MultiThreadLog
