import MultiThreadLog.AsyncLogging.Disk
import MultiThreadLog.Logging.Program

/-!
# A program that logs through `AsyncLogging`

`g_output` appends to an `AsyncLogging`, as `asyncOutput` of the tests does, and a call is the
critical section of `AsyncLogging::append`. `g_flush` stays `fflush(stdout)`, so it does nothing for
the log. `log_of_threads` follows the records into the files.
-/

namespace MultiThreadLog

open Bytes

/-- `AsyncLogging::append` makes no call on the `LogFile`, so no answer or clock is read. -/
def appending (m : Msg) (fresh : Fresh) : Tick := ⟨.append m fresh, [], 1, 1⟩

/-- `asyncOutput` and `defaultFlush`; the other steps are those of the backend and of the owner. -/
def asyncOutput (proc : Process) (basename : List UInt8) (rollSize : Int) : Sink where
  State := System
  Env := Fresh
  Other := Tick
  output x m fresh := x.step proc basename rollSize (appending m fresh)
  flush x := some x
  other x t := if t.act.messages.isEmpty then x.step proc basename rollSize t else none

namespace Program

variable {strerror_tl : Int32 → List UInt8} {proc : Process} {basename : List UInt8}
  {rollSize : Int} {tz : TimeZone} {fresh1 fresh2 : Fresh}
  {s : Program (asyncOutput proc basename rollSize)}
  {acts : List (Act (asyncOutput proc basename rollSize))}

/-! ## The records in the files -/

/-- A write that does not fail, at a time past the epoch. -/
def SoundTick (t : Tick) : Prop := (∀ r ∈ t.rs, r.error = false) ∧ 0 < t.now

/-- A run of `AsyncLogging` with its `LogFile` under the run of the program. -/
structure Traced (proc : Process) (basename : List UInt8) (rollSize : Int) (fresh1 fresh2 : Fresh)
    (ticks : List Tick) (handed : List (Tid × List UInt8)) (x : System) : Prop where
  run : Lts.exec (System.step proc basename rollSize) (System.new fresh1 fresh2) ticks = some x
  sound : System.Sound ticks
  whole : ∀ m ∈ AsyncLogging.messages (ticks.map Tick.act), m.Whole
  texts : (AsyncLogging.messages (ticks.map Tick.act)).map Msg.text = handed.map Prod.snd

theorem messages_ticks_snoc (ticks : List Tick) (t : Tick) :
    AsyncLogging.messages ((ticks ++ [t]).map Tick.act) =
      AsyncLogging.messages (ticks.map Tick.act) ++ t.act.messages := by
  rw [List.map_append, List.map_singleton, AsyncLogging.messages_snoc]

theorem traced_exec
    (hsane : ∀ a ∈ acts, Sane tz (fun _ => True) SoundTick a)
    (h : Lts.exec (step strerror_tl) (new tz (System.new fresh1 fresh2)) acts = some s) :
    ∃ ticks, Traced proc basename rollSize fresh1 fresh2 ticks s.handed s.sink := by
  refine sink_exec (P := fun handed x =>
    ∃ ticks, Traced proc basename rollSize fresh1 fresh2 ticks handed x) ?_ ?_ ?_ ?_ hsane h
  · exact ⟨[], rfl, nofun, nofun, rfl⟩
  · rintro handed x m fresh x' tid ⟨ticks, hrun, hsound, hwhole, htexts⟩ hm hmt - happ
    refine ⟨ticks ++ [appending m fresh], Lts.exec_snoc hrun happ, fun t ht => ?_,
      fun m' hm' => ?_, ?_⟩
    · rcases List.mem_append.mp ht with ht | ht
      · exact hsound t ht
      · rw [List.mem_singleton.mp ht]
        exact ⟨nofun, show (0 : Int) < 1 by decide⟩
    · rw [messages_ticks_snoc] at hm'
      rcases List.mem_append.mp hm' with hm' | hm'
      · exact hwhole m' hm'
      · rw [List.mem_singleton.mp hm']
        exact hm
    · rw [messages_ticks_snoc, List.map_append, htexts, List.map_append]
      show _ ++ [m.text] = _ ++ [m.bytes]
      rw [hmt]
  · rintro handed x x' htraced hflush
    cases hflush
    exact htraced
  · rintro handed x (t : Tick) x' ⟨ticks, hrun, hsound, hwhole, htexts⟩ ht hother
    obtain ⟨hempty, htick⟩ := Option.ite_none_right_eq_some.mp hother
    have hnone : t.act.messages = [] := List.isEmpty_iff.mp hempty
    refine ⟨ticks ++ [t], Lts.exec_snoc hrun htick, fun t' ht' => ?_, ?_, ?_⟩
    · rcases List.mem_append.mp ht' with ht' | ht'
      · exact hsound t' ht'
      · rw [List.mem_singleton.mp ht']
        exact ht
    · rw [messages_ticks_snoc, hnone, List.append_nil]
      exact hwhole
    · rw [messages_ticks_snoc, hnone, List.append_nil]
      exact htexts

/-- What a log file is made of. -/
inductive Piece where
  | record (tid : Tid) (text : List UInt8)
  | notice (now : Timestamp) (dropped : Nat)

def Piece.bytes : Piece → List UInt8
  | .record _ text => text
  | .notice now dropped => noticeText now dropped

def Piece.record? : Piece → Option (Tid × List UInt8)
  | .record tid text => some (tid, text)
  | .notice .. => none

def Piece.dropped? : Piece → Option Nat
  | .record .. => none
  | .notice _ dropped => some dropped

/-- The pieces of an entry, `tids` being the threads of the messages. -/
def pieces (tids : Nat → Tid) : Flow.Entry AsyncLogging.Token Timestamp → List Piece
  | .data group => group.map fun t => .record (tids t.2) t.1.text
  | .note now dropped => [.notice now dropped]

theorem pieces_bytes (tids : Nat → Tid) (e : Flow.Entry AsyncLogging.Token Timestamp) :
    (pieces tids e).flatMap Piece.bytes = AsyncLogging.Entry.text e := by
  cases e with
  | data group => rw [pieces, List.flatMap_map]; rfl
  | note now dropped => simp [pieces, Piece.bytes, AsyncLogging.Entry.text]

theorem pieces_records (tids : Nat → Tid) (e : Flow.Entry AsyncLogging.Token Timestamp) :
    (pieces tids e).filterMap Piece.record? =
      e.items.map fun t => (tids t.2, t.1.text) := by
  cases e with
  | data group =>
    rw [pieces, List.filterMap_map]
    show List.filterMap (some ∘ fun t : AsyncLogging.Token => (tids t.2, t.1.text)) group = _
    rw [List.filterMap_eq_map]
    rfl
  | note now dropped => rfl

theorem pieces_dropped (tids : Nat → Tid) (e : Flow.Entry AsyncLogging.Token Timestamp) :
    (pieces tids e).filterMap Piece.dropped? = e.dropped?.toList := by
  cases e with
  | data group =>
    rw [pieces, List.filterMap_map]
    exact List.filterMap_eq_nil_iff.mpr fun _ _ => rfl
  | note now dropped => rfl

/-- A message and its thread, by its number. -/
theorem map_zipIdx {ms : List Msg} {handed : List (Tid × List UInt8)}
    (h : ms.map Msg.text = handed.map Prod.snd) :
    ms.zipIdx.map (fun t => ((handed.map Prod.fst).getD t.2 0, t.1.text)) = handed := by
  have hlen : ms.length = handed.length := by simpa using congrArg List.length h
  refine List.ext_getElem (by simp [hlen]) fun i h1 h2 => ?_
  have htext : (ms.map Msg.text)[i]? = (handed.map Prod.snd)[i]? := by rw [h]
  have hi : i < ms.length := by omega
  rw [List.getElem?_map, List.getElem?_map, List.getElem?_eq_getElem hi,
    List.getElem?_eq_getElem h2, Option.map_some, Option.map_some, Option.some_inj] at htext
  simp [List.getElem_map, htext, h2]

/-- The notices of a run, by the batches that were cut. -/
theorem notes_eq {ticks : List Tick} {x : System} (hne : fresh1.addr ≠ fresh2.addr)
    (hm : ∀ m ∈ AsyncLogging.messages (ticks.map Tick.act), m.Whole)
    (he : Lts.exec (System.step proc basename rollSize) (System.new fresh1 fresh2) ticks =
      some x) :
    (AsyncLogging.ledger (.new fresh1 fresh2) (ticks.map Tick.act)).notes =
      (AsyncLogging.cutBatches (.new fresh1 fresh2) (ticks.map Tick.act)).map fun batch =>
        batch.length - 2 := by
  rw [← AsyncLogging.shedTexts_exec hne hm (System.exec_logging he), AsyncLogging.shedTexts,
    List.map_map]
  refine (Flow.State.run_notes 25 2 _).1.trans (List.map_congr_left fun batch _ => ?_)
  simp

/-- The files of a run in pieces. -/
theorem Traced.pieces {ticks : List Tick} {handed : List (Tid × List UInt8)} {x : System}
    (h : Traced proc basename rollSize fresh1 fresh2 ticks handed x)
    (hne : fresh1.addr ≠ fresh2.addr) :
    ∃ files : List (List Piece),
      x.disk.map AppendFile.content = files.map (fun ps => ps.flatMap Piece.bytes) ∧
      (files.flatten.filterMap Piece.record?).Sublist handed ∧
      files.flatten.filterMap Piece.dropped? =
        (AsyncLogging.cutBatches (.new fresh1 fresh2) (ticks.map Tick.act)).map fun batch =>
          batch.length - 2 := by
  obtain ⟨groups, hgroups, hcontents⟩ :=
    (System.onDisk_exec hne h.sound h.whole h.run).groups
  let tids : Nat → Tid := fun i => (handed.map Prod.fst).getD i 0
  have hflat : (groups.map fun g => g.flatMap (Program.pieces tids)).flatten =
      groups.flatten.flatMap (Program.pieces tids) := by
    rw [List.flatMap_def (l := groups.flatten), List.map_flatten, List.flatten_flatten,
      List.map_map]
    rfl
  refine ⟨groups.map fun g => g.flatMap (Program.pieces tids), ?_, ?_, ?_⟩
  · rw [hcontents, List.map_map]
    refine List.map_congr_left fun g _ => ?_
    simp only [Function.comp, List.flatMap_assoc, pieces_bytes]
  · have hrecords : (groups.map fun g => g.flatMap (Program.pieces tids)).flatten.filterMap
        Piece.record? = (AsyncLogging.ledger (.new fresh1 fresh2)
          (ticks.map Tick.act)).delivered.map fun t => (tids t.2, t.1.text) := by
      rw [hflat, hgroups, Flow.State.delivered, List.filterMap_flatMap, List.map_flatMap]
      simp only [pieces_records]
    rw [hrecords]
    have := (System.delivered_sublist hne h.run).map fun t => (tids t.2, t.1.text)
    rwa [map_zipIdx h.texts] at this
  · rw [hflat, hgroups, ← notes_eq hne h.whole h.run, Flow.State.notes, List.filterMap_flatMap]
    simp only [pieces_dropped]
    exact (List.filterMap_eq_flatMap_toList _ _).symm

/-- **The log of a program**, in every state of every run of any number of threads in which no write
fails. The files consist of whole records and drop notices. There is one notice for each batch that
was cut, with the number of buffers cut off. The records are some of those appended, in that order
and none twice; those of one thread come in the order in which it made them; and the records made
are those of the statements that the level lets through. -/
theorem log_of_threads (strerror_tl : Int32 → List UInt8) (proc : Process) (basename : List UInt8)
    (rollSize : Int) (tz : TimeZone) (fresh1 fresh2 : Fresh) (hne : fresh1.addr ≠ fresh2.addr)
    (acts : List (Act (asyncOutput proc basename rollSize)))
    (hsane : ∀ a ∈ acts, Sane tz (fun _ => True) SoundTick a)
    (s : Program (asyncOutput proc basename rollSize))
    (he : Lts.exec (step strerror_tl) (new tz (System.new fresh1 fresh2)) acts = some s) :
    ∃ ticks, Traced proc basename rollSize fresh1 fresh2 ticks s.handed s.sink ∧
    ∃ files : List (List Piece),
      s.sink.disk.map AppendFile.content = files.map (fun ps => ps.flatMap Piece.bytes) ∧
      files.flatten.filterMap Piece.dropped? =
        (AsyncLogging.cutBatches (.new fresh1 fresh2) (ticks.map Tick.act)).map (fun batch =>
          batch.length - 2) ∧
      (files.flatten.filterMap Piece.record?).Sublist s.handed ∧
      (∀ tid, (ofThread tid (files.flatten.filterMap Piece.record?)).Sublist
        (ofThread tid s.made)) ∧
      (∀ tid, ofThread tid s.made = ofThread tid s.handed ++ (s.stage tid).pending) ∧
      List.Forall₂ (Made strerror_tl tz) (calls .INFO acts) s.made := by
  have hinv := inv_exec hsane he
  obtain ⟨ticks, htraced⟩ := traced_exec hsane he
  obtain ⟨files, hfiles, hsub, hnotices⟩ := htraced.pieces hne
  refine ⟨ticks, htraced, files, hfiles, hnotices, hsub, fun tid => ?_, hinv.order, hinv.made⟩
  rw [hinv.order tid]
  exact ((hsub.filter _).map _).trans (List.sublist_append_left _ _)

/-- The second thread's first statement is below the level, and its last one is fatal. -/
def statements : List (Act (asyncOutput proc basename rollSize)) :=
  [.log 5 (hiCall .LOG_INFO), .log 6 (hiCall .LOG_DEBUG), .setLogLevel .DEBUG,
    .log 6 (hiCall .LOG_DEBUG), .output 6 (Fresh.mk 2 fun _ => 7),
    .output 5 (Fresh.mk 2 fun _ => 7), .log 6 (hiCall .LOG_FATAL)]

/-- The backend writes its first batch. -/
def firstBatch : List (Act (asyncOutput proc basename rollSize)) :=
  ([.start, .countDown, .started, .setup ⟨2, fun _ => 7⟩ ⟨3, fun _ => 7⟩, .test, .lock, .check,
    .wait, .wake, .swap, .trim ⟨0⟩, .write] : List MultiThreadLog.Act).map fun a =>
      .other (System.atNoon a)

def twoThreads : List (Act (asyncOutput proc basename rollSize)) :=
  statements ++ firstBatch ++ [.output 6 (Fresh.mk 4 fun _ => 7), .flush 6, .abort 6]

theorem sane_twoThreads :
    ∀ a ∈ @twoThreads proc basename rollSize, Sane .none (fun _ => True) SoundTick a := by
  intro a ha
  rcases List.mem_append.mp ha with ha | ha
  · rcases List.mem_append.mp ha with ha | ha
    · simp only [statements, List.mem_cons, List.not_mem_nil, or_false] at ha
      rcases ha with rfl | rfl | rfl | rfl | rfl | rfl | rfl <;>
        first | exact sane_hiCall _ | trivial
    · obtain ⟨b, -, rfl⟩ := List.mem_map.mp ha
      exact System.sound_atNoon [b] (System.atNoon b) List.mem_cons_self
  · simp only [List.mem_cons, List.not_mem_nil, or_false] at ha
    rcases ha with rfl | rfl | rfl <;> trivial

/-- The last record is in memory when the program ends. -/
theorem log_of_threads_twoThreads :
    ∃ s, Lts.exec (step fun _ => []) (new .none (System.new ⟨0, fun _ => 7⟩ ⟨1, fun _ => 7⟩))
        (@twoThreads ⟨ascii "host", 7⟩ (ascii "log") 1000) = some s ∧
      ∃ ticks, Traced ⟨ascii "host", 7⟩ (ascii "log") 1000 ⟨0, fun _ => 7⟩ ⟨1, fun _ => 7⟩ ticks
          s.handed s.sink ∧
      ∃ files : List (List Piece),
        s.sink.disk.map AppendFile.content = files.map (fun ps => ps.flatMap Piece.bytes) ∧
        files.flatten.filterMap Piece.dropped? = (AsyncLogging.cutBatches
          (.new ⟨0, fun _ => 7⟩ ⟨1, fun _ => 7⟩) (ticks.map Tick.act)).map (fun batch =>
            batch.length - 2) ∧
        (files.flatten.filterMap Piece.record?).Sublist s.handed := by
  have hsome : (Lts.exec (step fun _ => [])
      (new .none (System.new ⟨0, fun _ => 7⟩ ⟨1, fun _ => 7⟩))
      (@twoThreads ⟨ascii "host", 7⟩ (ascii "log") 1000)).isSome = true := by decide +kernel
  obtain ⟨s, he⟩ := Option.isSome_iff_exists.mp hsome
  obtain ⟨ticks, htraced, files, hfiles, hnotices, hsub, -⟩ := log_of_threads (fun _ => [])
    ⟨ascii "host", 7⟩ (ascii "log") 1000 .none ⟨0, fun _ => 7⟩ ⟨1, fun _ => 7⟩ (by decide)
    twoThreads sane_twoThreads s he
  exact ⟨s, he, ticks, htraced, files, hfiles, hnotices, hsub⟩

end Program

end MultiThreadLog
