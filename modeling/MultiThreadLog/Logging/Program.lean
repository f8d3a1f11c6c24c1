import MultiThreadLog.AsyncLogging.Ledger
import MultiThreadLog.Logging.Record

/-!
# Threads that log

A program sets `g_output` and `g_flush` (`Logger::setOutput`, `Logger::setFlush`), and then any
number of threads execute `LOG_` statements. A statement makes its record in the thread's own
memory, up to the call of `g_output` in the destructor; a `FATAL` statement goes on to `g_flush` and
ends the program. The zone is set before the threads start.

What stands behind the two functions is a `Sink`, and a call of `g_output` is one step of it. `made`
are the records in the order in which they were made, `handed` in the order in which they were
handed to `g_output`. `Inv` says of any sink what the records are and in which order the threads
hand them on; `sink_exec` carries an invariant of the sink through the runs of the program.
-/

namespace MultiThreadLog

open Bytes

/-! ## The statements -/

/-- The enumerators' values. -/
def LogLevel.value : LogLevel → Nat
  | .TRACE => 0
  | .DEBUG => 1
  | .INFO => 2
  | .WARN => 3
  | .ERROR => 4
  | .FATAL => 5

inductive LogMacro where
  | LOG_TRACE
  | LOG_DEBUG
  | LOG_INFO
  | LOG_WARN
  | LOG_ERROR
  | LOG_FATAL
  | LOG_SYSERR
  | LOG_SYSFATAL

/-- The condition in front of the statement. -/
def LogMacro.enabled (g_logLevel : LogLevel) : LogMacro → Bool
  | .LOG_TRACE => g_logLevel.value ≤ LogLevel.TRACE.value
  | .LOG_DEBUG => g_logLevel.value ≤ LogLevel.DEBUG.value
  | .LOG_INFO => g_logLevel.value ≤ LogLevel.INFO.value
  | _ => true

/-- A statement in a source file, its operands, and the memory that it meets. -/
structure LogCall where
  kind : LogMacro
  path : List UInt8
  line : Int32
  func : List UInt8
  errno : Int32
  time : Timestamp
  body : List Insertion
  leftover : Nat → UInt8
  after : List UInt8
  after' : List UInt8
  after'' : List UInt8
  behind : List UInt8

def LogCall.statement (c : LogCall) : Statement :=
  match c.kind with
  | .LOG_TRACE => ⟨.TRACE, 0, .ofArray c.path, c.line, some c.func⟩
  | .LOG_DEBUG => ⟨.DEBUG, 0, .ofArray c.path, c.line, some c.func⟩
  | .LOG_INFO => ⟨.INFO, 0, .ofArray c.path, c.line, none⟩
  | .LOG_WARN => ⟨.WARN, 0, .ofArray c.path, c.line, none⟩
  | .LOG_ERROR => ⟨.ERROR, 0, .ofArray c.path, c.line, none⟩
  | .LOG_FATAL => ⟨.FATAL, 0, .ofArray c.path, c.line, none⟩
  | .LOG_SYSERR => ⟨.ERROR, c.errno, .ofArray c.path, c.line, none⟩
  | .LOG_SYSFATAL => ⟨.FATAL, c.errno, .ofArray c.path, c.line, none⟩

def LogCall.fatal (c : LogCall) : Bool :=
  match c.statement.level with
  | .FATAL => true
  | _ => false

/-- `g_output(stream().buffer().data(), stream().buffer().length())`: the pointer is that of the
array, with the memory behind it, and the length is `cur_`. -/
def Logger.output (st : Statement) (stream_ : LogStream) (after after' behind : List UInt8) :
    Option Msg :=
  (stream_.insertAll (trailer st after after')).map fun s =>
    ⟨load s.buffer.data 0 kSmallBuffer ++ behind, s.buffer.length⟩

/-- The bytes of a message. -/
def Msg.bytes (m : Msg) : List UInt8 := m.logline.take m.len

/-- **The message of a record** without NUL bytes is taken whole, whatever lies behind it. -/
theorem Logger.output_whole {st : Statement} {s : LogStream} {after after' behind r : List UInt8}
    {m : Msg} (hd : destruct st s after after' = some r) (hzero : ∀ b ∈ r, b ≠ 0)
    (ho : Logger.output st s after after' behind = some m) :
    m.Whole ∧ m.text = r ∧ m.bytes = r := by
  obtain ⟨s', hs', rfl⟩ := Option.map_eq_some_iff.mp hd
  obtain ⟨s2, hs2, rfl⟩ := Option.map_eq_some_iff.mp ho
  obtain rfl : s' = s2 := Option.some_inj.mp (hs'.symm.trans hs2)
  have hcur : s'.buffer.length ≤ 4000 := s'.buffer.cur_le
  have hlen : s'.buffer.toString.length = s'.buffer.length := s'.buffer.length_toString
  obtain ⟨rest, hrest⟩ : ∃ rest, load s'.buffer.data 0 kSmallBuffer ++ behind =
      s'.buffer.toString ++ rest := by
    refine ⟨load s'.buffer.data (0 + s'.buffer.length) (kSmallBuffer - s'.buffer.length) ++
      behind, ?_⟩
    rw [← List.append_assoc, FixedBuffer.toString, ← load_add,
      Nat.add_sub_cancel' (show s'.buffer.length ≤ kSmallBuffer from hcur)]
  have hcstr : cstr (s'.buffer.toString ++ rest) = s'.buffer.toString ++ cstr rest :=
    List.takeWhile_append_of_pos fun b hb => by simpa using hzero b hb
  refine ⟨⟨?_, ?_⟩, ?_, ?_⟩
  · show s'.buffer.length ≤ strlen (load s'.buffer.data 0 kSmallBuffer ++ behind) + 1
    rw [hrest, strlen, hcstr, List.length_append]
    omega
  · show s'.buffer.length < 4000 * 1000
    omega
  · show (cstr (load s'.buffer.data 0 kSmallBuffer ++ behind) ++ [0]).take s'.buffer.length = _
    rw [hrest, hcstr, List.append_assoc]
    exact List.take_left' hlen
  · show (load s'.buffer.data 0 kSmallBuffer ++ behind).take s'.buffer.length = _
    rw [hrest]
    exact List.take_left' hlen

/-! ## The program -/

/-- What stands behind `g_output` and `g_flush`. -/
structure Sink where
  State : Type
  /-- What a call of `g_output` meets. -/
  Env : Type
  /-- A step of its own. -/
  Other : Type
  output : State → Msg → Env → Option State
  flush : State → Option State
  other : State → Other → Option State

/-- A thread's `pid_t`. -/
abbrev Tid : Type := Fin (2 ^ 31)

instance Tid.neZero : NeZero (2 ^ 31) := ⟨by simp⟩

/-- How far a thread is: in between its statements, at the call of `g_output`, or behind that of a
`FATAL` record, at `g_flush` and at `abort`. -/
inductive Stage where
  | idle
  | output (m : Msg) (fatal : Bool)
  | flushing
  | aborting

def Stage.pending : Stage → List (List UInt8)
  | .output m _ => [m.bytes]
  | _ => []

/-- A `FATAL` statement is under way. -/
def Stage.ending : Stage → Bool
  | .idle => false
  | .output _ fatal => fatal
  | .flushing => true
  | .aborting => true

structure Program (k : Sink) where
  g_logLevel : LogLevel
  g_logTimeZone : TimeZone
  locals : Tid → ThreadLocals
  stage : Tid → Stage
  sink : k.State
  aborted : Bool
  made : List (Tid × List UInt8)
  handed : List (Tid × List UInt8)

namespace Program

variable {k : Sink}

inductive Act (k : Sink) where
  | setLogLevel (level : LogLevel)
  | log (tid : Tid) (c : LogCall)
  | output (tid : Tid) (env : k.Env)
  | flush (tid : Tid)
  | abort (tid : Tid)
  | other (o : k.Other)

def new (tz : TimeZone) (sink : k.State) : Program k where
  g_logLevel := .INFO
  g_logTimeZone := tz
  locals _ := ⟨0, []⟩
  stage _ := .idle
  sink := sink
  aborted := false
  made := []
  handed := []

section Step

variable (strerror_tl : Int32 → List UInt8)

/-- Where a statement runs. -/
def site (s : Program k) (tid : Tid) (time : Timestamp) : Site :=
  ⟨s.g_logTimeZone, s.locals tid, (tid : Nat), time, strerror_tl⟩

/-- A statement up to the call of `g_output`. -/
def log (s : Program k) (tid : Tid) (c : LogCall) : Option (Program k) :=
  match s.stage tid with
  | .idle =>
    if c.kind.enabled s.g_logLevel then
      (Logger.construct (s.site strerror_tl tid c.time) c.statement c.leftover
        c.after).bind fun r =>
      (r.2.insertAll c.body).bind fun stream_ =>
      (Logger.output c.statement stream_ c.after' c.after'' c.behind).map fun m =>
        { s with
          locals := Function.update s.locals tid r.1
          stage := Function.update s.stage tid (.output m c.fatal)
          made := s.made ++ [(tid, m.bytes)] }
    else some s
  | _ => none

/-- The call of `g_output`. -/
def output (s : Program k) (tid : Tid) (env : k.Env) : Option (Program k) :=
  match s.stage tid with
  | .output m fatal =>
    (k.output s.sink m env).map fun sink =>
      { s with
        sink
        stage := Function.update s.stage tid (if fatal then .flushing else .idle)
        handed := s.handed ++ [(tid, m.bytes)] }
  | _ => none

/-- `g_flush()`. -/
def flush (s : Program k) (tid : Tid) : Option (Program k) :=
  match s.stage tid with
  | .flushing =>
    (k.flush s.sink).map fun sink =>
      { s with sink, stage := Function.update s.stage tid .aborting }
  | _ => none

def abort (s : Program k) (tid : Tid) : Option (Program k) :=
  match s.stage tid with
  | .aborting => some { s with aborted := true }
  | _ => none

/-- **One step** of the program. -/
def step (s : Program k) (a : Act k) : Option (Program k) :=
  if s.aborted then none
  else match a with
    | .setLogLevel level => some { s with g_logLevel := level }
    | .log tid c => s.log strerror_tl tid c
    | .output tid env => s.output tid env
    | .flush tid => s.flush tid
    | .abort tid => s.abort tid
    | .other o => (k.other s.sink o).map fun sink => { s with sink }

end Step

variable {strerror_tl : Int32 → List UInt8} {tz : TimeZone} {x0 : k.State} {s s' : Program k}
  {a : Act k} {acts : List (Act k)}

/-- What one step can do. -/
inductive Move (strerror_tl : Int32 → List UInt8) (s : Program k) : Act k → Program k → Prop where
  | setLogLevel (level : LogLevel) :
      Move strerror_tl s (.setLogLevel level) { s with g_logLevel := level }
  | skip {tid : Tid} {c : LogCall} (hc : c.kind.enabled s.g_logLevel = false) :
      Move strerror_tl s (.log tid c) s
  | log {tid : Tid} {c : LogCall} {tl : ThreadLocals} {stream_ : LogStream} {r : List UInt8}
      {m : Msg} (hidle : s.stage tid = .idle) (hc : c.kind.enabled s.g_logLevel = true)
      (hcon : Logger.construct (s.site strerror_tl tid c.time) c.statement c.leftover c.after =
        some (tl, stream_))
      (hrec : Logger.record (s.site strerror_tl tid c.time) c.statement c.leftover c.body c.after
        c.after' c.after'' = some r)
      (hmsg : (∀ b ∈ r, b ≠ 0) → m.Whole ∧ m.text = r ∧ m.bytes = r) :
      Move strerror_tl s (.log tid c) { s with
        locals := Function.update s.locals tid tl
        stage := Function.update s.stage tid (.output m c.fatal)
        made := s.made ++ [(tid, m.bytes)] }
  | output {tid : Tid} {env : k.Env} {m : Msg} {fatal : Bool} {sink : k.State}
      (hm : s.stage tid = .output m fatal) (hs : k.output s.sink m env = some sink) :
      Move strerror_tl s (.output tid env) { s with
        sink
        stage := Function.update s.stage tid (if fatal then .flushing else .idle)
        handed := s.handed ++ [(tid, m.bytes)] }
  | flush {tid : Tid} {sink : k.State} (hf : s.stage tid = .flushing)
      (hs : k.flush s.sink = some sink) :
      Move strerror_tl s (.flush tid) { s with
        sink
        stage := Function.update s.stage tid .aborting }
  | abort {tid : Tid} (ha : s.stage tid = .aborting) :
      Move strerror_tl s (.abort tid) { s with aborted := true }
  | other {o : k.Other} {sink : k.State} (hs : k.other s.sink o = some sink) :
      Move strerror_tl s (.other o) { s with sink }

theorem step_move (h : s.step strerror_tl a = some s') : Move strerror_tl s a s' := by
  unfold step at h
  split at h
  · cases h
  cases a with
  | setLogLevel level =>
    cases h
    exact .setLogLevel level
  | log tid c =>
    simp only [log] at h
    split at h
    · rename_i hidle
      split at h
      · rename_i hc
        obtain ⟨⟨tl, stream⟩, hcon, h⟩ := Option.bind_eq_some_iff.mp h
        obtain ⟨stream_, hbody, h⟩ := Option.bind_eq_some_iff.mp h
        obtain ⟨m, hm, rfl⟩ := Option.map_eq_some_iff.mp h
        obtain ⟨last, hlast, -⟩ := Option.map_eq_some_iff.mp hm
        have hd : Logger.destruct c.statement stream_ c.after' c.after'' =
            some last.buffer.toString := by
          rw [Logger.destruct, hlast, Option.map_some]
        refine .log hidle hc hcon ?_ fun hzero => Logger.output_whole hd hzero hm
        rw [Logger.record, Logger.statement, hcon, Option.bind_some, hbody, Option.bind_some, hd]
      · rename_i hc
        cases h
        exact .skip (by simpa using hc)
    · cases h
  | output tid env =>
    simp only [output] at h
    split at h
    · rename_i hm
      obtain ⟨sink, hs, rfl⟩ := Option.map_eq_some_iff.mp h
      exact .output hm hs
    · cases h
  | flush tid =>
    simp only [flush] at h
    split at h
    · rename_i hf
      obtain ⟨sink, hs, rfl⟩ := Option.map_eq_some_iff.mp h
      exact .flush hf hs
    · cases h
  | abort tid =>
    simp only [abort] at h
    split at h
    · rename_i ha
      cases h
      exact .abort ha
    · cases h
  | other o =>
    obtain ⟨sink, hs, rfl⟩ := Option.map_eq_some_iff.mp h
    exact .other hs

/-! ## What the records are -/

/-- The statements that are executed, with their threads: the level switches the others off. -/
def calls : LogLevel → List (Act k) → List (Tid × LogCall)
  | _, [] => []
  | _, .setLogLevel level :: acts => calls level acts
  | g_logLevel, .log tid c :: acts =>
    (if c.kind.enabled g_logLevel then [(tid, c)] else []) ++ calls g_logLevel acts
  | g_logLevel, _ :: acts => calls g_logLevel acts

/-- The level after these steps. -/
def levelAfter : LogLevel → List (Act k) → LogLevel
  | g_logLevel, [] => g_logLevel
  | _, .setLogLevel level :: acts => levelAfter level acts
  | g_logLevel, _ :: acts => levelAfter g_logLevel acts

/-- What a thread did, of a list of what all threads did. -/
def ofThread {α : Type} (tid : Tid) (l : List (Tid × α)) : List α :=
  (l.filter fun p => p.1 = tid).map Prod.snd

/-- A statement that inserts no NUL byte, at a time with a year of four digits. -/
structure LogCall.Sane (tz : TimeZone) (c : LogCall) : Prop where
  path : ∀ b ∈ c.path, b ≠ 0
  second : 1 ≤ c.time.seconds
  year : ∀ u, localSecond tz c.time.seconds = some u → FourDigitYear u
  body : ∀ i ∈ c.body, i.Clean

/-- Such statements, and a sink that meets what it is to meet. -/
def Sane (tz : TimeZone) (E : k.Env → Prop) (O : k.Other → Prop) : Act k → Prop
  | .log _ c => LogCall.Sane tz c
  | .output _ env => E env
  | .other o => O o
  | _ => True

/-- The record is the one of the statement, in the zone and at the time of the call. -/
def Made (strerror_tl : Int32 → List UInt8) (tz : TimeZone) (p : Tid × LogCall)
    (q : Tid × List UInt8) : Prop :=
  p.1 = q.1 ∧ ∃ thread,
    Logger.Orderly ⟨tz, thread, (p.1 : Nat), p.2.time, strerror_tl⟩ p.2.statement p.2.body ∧
    Logger.record ⟨tz, thread, (p.1 : Nat), p.2.time, strerror_tl⟩ p.2.statement p.2.leftover
      p.2.body p.2.after p.2.after' p.2.after'' = some q.2

theorem statement_file (c : LogCall) : c.statement.file = .ofArray c.path := by
  unfold LogCall.statement
  cases c.kind <;> rfl

theorem calls_snoc (l : LogLevel) (acts : List (Act k)) (a : Act k) :
    calls l (acts ++ [a]) = calls l acts ++ calls (levelAfter l acts) [a] := by
  induction acts generalizing l with
  | nil => rfl
  | cons b acts ih => cases b <;> simp [calls, levelAfter, ih]

theorem levelAfter_snoc (l : LogLevel) (acts : List (Act k)) (a : Act k) :
    levelAfter l (acts ++ [a]) = levelAfter (levelAfter l acts) [a] := by
  induction acts generalizing l with
  | nil => rfl
  | cons b acts ih => cases b <;> simp only [List.cons_append, levelAfter, ih]

theorem ofThread_snoc {α : Type} (tid tid' : Tid) (l : List (Tid × α)) (x : α) :
    ofThread tid (l ++ [(tid', x)]) = ofThread tid l ++ if tid' = tid then [x] else [] := by
  rw [ofThread, ofThread, List.filter_append, List.map_append]
  by_cases h : tid' = tid <;> simp [h]

/-- The threads, and the records up to the call of `g_output`. -/
structure Inv (strerror_tl : Int32 → List UInt8) (tz : TimeZone) (acts : List (Act k))
    (s : Program k) : Prop where
  zone : s.g_logTimeZone = tz
  level : s.g_logLevel = levelAfter .INFO acts
  locals : ∀ tid, Logger.InZone tz (s.locals tid)
  stage : ∀ tid m fatal, s.stage tid = .output m fatal → m.Whole ∧ m.text = m.bytes
  made : List.Forall₂ (Made strerror_tl tz) (calls .INFO acts) s.made
  order : ∀ tid, ofThread tid s.made = ofThread tid s.handed ++ (s.stage tid).pending

variable {E : k.Env → Prop} {O : k.Other → Prop}

theorem inv_new : Inv strerror_tl tz [] (new tz x0 : Program k) := by
  refine ⟨rfl, rfl, fun tid => ⟨⟨0, tz⟩, ⟨rfl, fun h => ?_⟩, fun _ => rfl⟩, nofun, .nil,
    fun _ => rfl⟩
  exact absurd h (show ¬ (1 : Int) ≤ 0 by decide)

theorem Inv.step (h : Inv strerror_tl tz acts s) (ha : Sane tz E O a)
    (hs : Move strerror_tl s a s') :
    Inv strerror_tl tz (acts ++ [a]) s' := by
  obtain ⟨hzone, hlevel, hlocals, hstage, hmade, horder⟩ := h
  cases hs with
  | setLogLevel level =>
    refine ⟨hzone, by rw [levelAfter_snoc]; rfl, hlocals, hstage, ?_, horder⟩
    rw [calls_snoc]
    simpa [calls] using hmade
  | @skip tid c hc =>
    refine ⟨hzone, by rw [levelAfter_snoc]; exact hlevel, hlocals, hstage, ?_, horder⟩
    rw [calls_snoc, ← hlevel]
    simpa [calls, hc] using hmade
  | @log tid c tl stream_ r m hidle hc hcon hrec hmsg =>
    have hsite : s.site strerror_tl tid c.time =
        ⟨tz, s.locals tid, (tid : Nat), c.time, strerror_tl⟩ := by
      rw [site, hzone]
    have hfile : strlen c.statement.file.data = c.statement.file.size := by
      rw [statement_file]
      exact SourceFile.ofArray_size ha.path
    have hord : Logger.Orderly ⟨tz, s.locals tid, (tid : Nat), c.time, strerror_tl⟩ c.statement
        c.body :=
      ⟨⟨ha.second, ha.year⟩, ⟨by simp, by have := tid.isLt; simp only; omega⟩, hlocals tid, hfile,
        ha.body⟩
    rw [hsite] at hcon hrec
    obtain ⟨-, -, -, hin, -⟩ := Logger.construct_text hord.timely hord.tid hord.zone hcon
    have hzero : ∀ b ∈ r, b ≠ 0 := by
      obtain ⟨st, hst, hd⟩ := Option.bind_eq_some_iff.mp hrec
      obtain ⟨-, -, -, -, hz⟩ := hord.statement hst
      exact (Logger.destruct_text hfile hd).2.1 hz
    obtain ⟨hwhole, htext, hbytes⟩ := hmsg hzero
    refine ⟨hzone, by rw [levelAfter_snoc]; exact hlevel, fun t => ?_, fun t m' fatal' hm' => ?_,
      ?_, fun t => ?_⟩
    · by_cases htt : t = tid
      · subst htt
        simpa using hin
      · simpa [Function.update_of_ne htt] using hlocals t
    · by_cases htt : t = tid
      · subst htt
        simp only [Function.update_self, Stage.output.injEq] at hm'
        obtain ⟨rfl, -⟩ := hm'
        exact ⟨hwhole, htext.trans hbytes.symm⟩
      · exact hstage t m' fatal' (by simpa [Function.update_of_ne htt] using hm')
    · rw [calls_snoc, ← hlevel]
      refine List.rel_append hmade ?_
      simp only [calls, hc, if_true, List.append_nil]
      exact .cons ⟨rfl, s.locals tid, hord, by rw [hbytes]; exact hrec⟩ .nil
    · rw [ofThread_snoc, horder t]
      by_cases htt : t = tid
      · subst htt
        simp [hidle, Stage.pending]
      · simp [Function.update_of_ne htt, Ne.symm htt]
  | @output tid env m fatal sink hm hs =>
    refine ⟨hzone, by rw [levelAfter_snoc]; exact hlevel, hlocals, fun t m' fatal' hm' => ?_, ?_,
      fun t => ?_⟩
    · by_cases htt : t = tid
      · subst htt
        cases fatal <;> simp at hm'
      · exact hstage t m' fatal' (by simpa [Function.update_of_ne htt] using hm')
    · rw [calls_snoc]
      simpa [calls] using hmade
    · rw [ofThread_snoc, horder t]
      by_cases htt : t = tid
      · subst htt
        cases fatal <;> simp [hm, Stage.pending]
      · simp [Function.update_of_ne htt, Ne.symm htt]
  | @flush tid sink hf hs =>
    refine ⟨hzone, by rw [levelAfter_snoc]; exact hlevel, hlocals, fun t m' fatal' hm' => ?_, ?_,
      fun t => ?_⟩
    · by_cases htt : t = tid
      · subst htt
        simp at hm'
      · exact hstage t m' fatal' (by simpa [Function.update_of_ne htt] using hm')
    · rw [calls_snoc]
      simpa [calls] using hmade
    · rw [horder t]
      by_cases htt : t = tid
      · subst htt
        simp [hf, Stage.pending]
      · simp [Function.update_of_ne htt]
  | abort | other =>
    refine ⟨hzone, by rw [levelAfter_snoc]; exact hlevel, hlocals, hstage, ?_, horder⟩
    rw [calls_snoc]
    simpa [calls] using hmade

theorem inv_exec (hsane : ∀ a ∈ acts, Sane tz E O a)
    (h : Lts.exec (step strerror_tl) (new tz x0) acts = some s) : Inv strerror_tl tz acts s := by
  refine Lts.exec_inv (P := fun acts s => (∀ a ∈ acts, Sane tz E O a) → Inv strerror_tl tz acts s)
    (fun _ => inv_new) (fun acts s a s' _ ih hs hsane => ?_) h hsane
  exact (ih fun b hb => hsane b (List.mem_append_left _ hb)).step
    (hsane a (List.mem_append_right _ List.mem_cons_self)) (step_move hs)

/-! ## How it ends -/

/-- The last statement of a thread that is about to end the program is a `FATAL` one. -/
structure Ending (acts : List (Act k)) (s : Program k) : Prop where
  level : s.g_logLevel = levelAfter .INFO acts
  last : ∀ tid, (s.stage tid).ending = true →
    ∃ c, (ofThread tid (calls .INFO acts)).getLast? = some c ∧ c.fatal = true
  aborted : s.aborted = true → ∃ tid, s.stage tid = .aborting

theorem Ending.step (h : Ending acts s) (hs : Move strerror_tl s a s') :
    Ending (acts ++ [a]) s' := by
  obtain ⟨hlevel, hlast, haborted⟩ := h
  -- a step that executes no statement keeps the threads' last ones
  have stay : ∀ {b : Act k}, calls s.g_logLevel [b] = [] →
      ∀ tid, (s.stage tid).ending = true →
        ∃ c, (ofThread tid (calls .INFO (acts ++ [b]))).getLast? = some c ∧ c.fatal = true := by
    intro b hb tid ht
    rw [calls_snoc, ← hlevel, hb, List.append_nil]
    exact hlast tid ht
  have still : ∀ {tid : Tid} {stage : Stage}, s.stage tid ≠ .aborting → s.aborted = true →
      ∃ t, Function.update s.stage tid stage t = .aborting := by
    intro tid stage hne hab
    obtain ⟨t, ht⟩ := haborted hab
    have htt : t ≠ tid := fun e => hne (e ▸ ht)
    exact ⟨t, by rw [Function.update_of_ne htt, ht]⟩
  cases hs with
  | setLogLevel level =>
    exact ⟨by rw [levelAfter_snoc]; rfl, stay rfl, haborted⟩
  | @skip tid c hc =>
    exact ⟨by rw [levelAfter_snoc]; exact hlevel, stay (by simp [calls, hc]), haborted⟩
  | @log tid c tl stream_ r m hidle hc hcon hrec hmsg =>
    refine ⟨by rw [levelAfter_snoc]; exact hlevel, fun t ht => ?_, still (by rw [hidle]; nofun)⟩
    · rw [calls_snoc, ← hlevel]
      have hcall : calls s.g_logLevel [.log (k := k) tid c] = [(tid, c)] := by simp [calls, hc]
      rw [hcall, ofThread_snoc]
      by_cases htt : t = tid
      · subst htt
        rw [if_pos rfl, List.getLast?_concat]
        exact ⟨c, rfl, by simpa [Stage.ending] using ht⟩
      · rw [if_neg (Ne.symm htt), List.append_nil]
        exact hlast t (by simpa [Function.update_of_ne htt] using ht)
  | @output tid env m fatal sink hm hs =>
    refine ⟨by rw [levelAfter_snoc]; exact hlevel, fun t ht => stay rfl t ?_,
      still (by rw [hm]; nofun)⟩
    · by_cases htt : t = tid
      · subst htt
        cases fatal with
        | false => simp [Stage.ending] at ht
        | true => rw [hm]; rfl
      · simpa [Function.update_of_ne htt] using ht
  | @flush tid sink hf hs =>
    refine ⟨by rw [levelAfter_snoc]; exact hlevel, fun t ht => stay rfl t ?_,
      still (by rw [hf]; nofun)⟩
    · by_cases htt : t = tid
      · rw [htt, hf]
        rfl
      · simpa [Function.update_of_ne htt] using ht
  | @abort tid ha => exact ⟨by rw [levelAfter_snoc]; exact hlevel, stay rfl, fun _ => ⟨tid, ha⟩⟩
  | other => exact ⟨by rw [levelAfter_snoc]; exact hlevel, stay rfl, haborted⟩

theorem ending_exec (h : Lts.exec (step strerror_tl) (new tz x0) acts = some s) :
    Ending acts s := by
  refine Lts.exec_inv (P := Ending) ⟨rfl, fun tid ht => ?_, fun hab => ?_⟩
    (fun acts s a s' _ ih hs => ih.step (step_move hs)) h
  · cases ht
  · cases hab

/-! ## The sink -/

/-- **The rule of the sink.** What holds of the records handed to a sink and its state, and is kept
by the calls and by its own steps, holds in every state of the program. -/
theorem sink_exec {P : List (Tid × List UInt8) → k.State → Prop} (h0 : P [] x0)
    (houtput : ∀ {handed x m env x'} (tid : Tid), P handed x → m.Whole → m.text = m.bytes → E env →
      k.output x m env = some x' → P (handed ++ [(tid, m.bytes)]) x')
    (hflush : ∀ {handed x x'}, P handed x → k.flush x = some x' → P handed x')
    (hother : ∀ {handed x o x'}, P handed x → O o → k.other x o = some x' → P handed x')
    (hsane : ∀ a ∈ acts, Sane tz E O a)
    (h : Lts.exec (step strerror_tl) (new tz x0) acts = some s) : P s.handed s.sink := by
  refine Lts.exec_inv (P := fun acts s => (∀ a ∈ acts, Sane tz E O a) → P s.handed s.sink)
    (fun _ => h0) (fun acts s a s' he ih hs hsane => ?_) h hsane
  have hsane' : ∀ b ∈ acts, Sane tz E O b := fun b hb => hsane b (List.mem_append_left _ hb)
  have ha : Sane tz E O a := hsane a (List.mem_append_right _ List.mem_cons_self)
  have hP := ih hsane'
  cases step_move hs with
  | setLogLevel | skip | log | abort => exact hP
  | @output tid env m fatal sink hm happ =>
    obtain ⟨hwhole, htext⟩ := (inv_exec hsane' he).stage tid m fatal hm
    exact houtput tid hP hwhole htext ha happ
  | flush hf happ => exact hflush hP happ
  | other happ => exact hother hP ha happ

/-- `LOG_X << "hi"` in `log/a.cc`, line 7, at noon of the second day. -/
def hiCall (kind : LogMacro) : LogCall :=
  ⟨kind, ascii "log/a.cc", 7, ascii "main", 0, ⟨129600000000⟩, Logger.hiString, fun _ => 7, [], [],
    [], []⟩

theorem sane_hiCall (kind : LogMacro) : LogCall.Sane .none (hiCall kind) := by
  refine ⟨ne_zero_of_all rfl, show (1 : Int) ≤ 129600 by decide, fun u hu => ?_, fun i hi => ?_⟩
  · rw [localSecond_utc rfl, Option.some_inj] at hu
    have hsec : (hiCall kind).time.seconds = 129600 := rfl
    unfold FourDigitYear
    omega
  · rw [List.mem_singleton.mp hi]
    exact cstring_clean _

end Program

end MultiThreadLog
