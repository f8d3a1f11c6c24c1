import MultiThreadLog.Logging.Format

/-!
# `Logger`: one record

A `Logger` writes a header into its stream when it is constructed, takes the insertions of the
statement, and adds the trailer ` - file:line` when it is destroyed; then the whole buffer goes to
`g_output` (`Logging.cc`). Every piece of it is an insertion of its own and is dropped when it
does not fit.

The character insertions copy from the address of a `char`; what lies behind it on the stack is
an argument (`after`).
-/

namespace MultiThreadLog

open Bytes Numeral

inductive LogLevel where
  | TRACE
  | DEBUG
  | INFO
  | WARN
  | ERROR
  | FATAL

def LogLevelName : LogLevel → List UInt8
  | .TRACE => ascii "TRACE "
  | .DEBUG => ascii "DEBUG "
  | .INFO => ascii "INFO  "
  | .WARN => ascii "WARN  "
  | .ERROR => ascii "ERROR "
  | .FATAL => ascii "FATAL "

/-- The base name of a source path: `data_` points behind the last slash. -/
structure SourceFile where
  data : List UInt8
  size : Nat

namespace SourceFile

/-- How far behind the start of a path its base name begins. -/
def baseOffset (path : List UInt8) : Nat :=
  strlen path - ((cstr path).reverse.takeWhile (· ≠ 47)).length

/-- From a character array, of which `arr` are the elements before the terminator. -/
def ofArray (arr : List UInt8) : SourceFile :=
  ⟨arr.drop (baseOffset arr), arr.length - baseOffset arr⟩

def ofPointer (filename : List UInt8) : SourceFile :=
  let data := filename.drop (baseOffset filename)
  ⟨data, strlen data⟩

end SourceFile

/-- What a statement brings along: the `LOG_` macro's arguments. -/
structure Statement where
  level : LogLevel
  savedErrno : Int32
  file : SourceFile
  line : Int32
  func : Option (List UInt8)

/-- Where the statement runs: the zone in force, the thread, the clock and `strerror_tl`. -/
structure Site where
  g_logTimeZone : TimeZone
  thread : ThreadLocals
  tid : Int
  time : Timestamp
  strerror_tl : Int32 → List UInt8

/-- `CurrentThread::tidString()`. -/
def tidString (tid : Int) : List UInt8 := (blankField 5 tid).take 31

namespace Logger

/-- The insertions of the constructors behind the time prefix. -/
def header (site : Site) (st : Statement) (after : List UInt8) : List Insertion :=
  [.text (.piece ⟨tidString site.tid, (blankField 5 site.tid).length⟩),
    .text (.cstring (some (ascii " "))), .text (.piece ⟨LogLevelName st.level, 6⟩)] ++
  (if st.savedErrno ≠ 0 then
    [.text (.cstring (some (site.strerror_tl st.savedErrno))),
      .text (.cstring (some (ascii " (errno="))), .number (.int st.savedErrno),
      .text (.cstring (some (ascii ") ")))]
  else []) ++
  (match st.func with
    | some func => [.text (.cstring (some func)), .text (.char 32 after)]
    | none => [])

/-- `Logger::Impl::finish`. The base name goes through `append` as a `StringPiece` does. -/
def trailer (st : Statement) (after after' : List UInt8) : List Insertion :=
  [.text (.cstring (some (ascii " - "))), .text (.piece ⟨st.file.data, st.file.size⟩),
    .text (.char 58 after), .number (.int st.line), .text (.char 10 after')]

/-- The constructors: the thread's locals and the stream afterwards. -/
def construct (site : Site) (st : Statement) (leftover : Nat → UInt8) (after : List UInt8) :
    Option (ThreadLocals × LogStream) :=
  (formatTime site.g_logTimeZone site.thread (.new leftover) site.time).bind fun r =>
    (r.2.insertAll (header site st after)).map fun stream_ => (r.1, stream_)

/-- What the destructor hands to `g_output`, from the stream as the statement left it. -/
def destruct (st : Statement) (stream_ : LogStream) (after after' : List UInt8) :
    Option (List UInt8) :=
  (stream_.insertAll (trailer st after after')).map fun s => s.buffer.toString

/-- The stream as the statement leaves it: constructed, and `body` inserted. -/
def statement (site : Site) (st : Statement) (leftover : Nat → UInt8) (after : List UInt8)
    (body : List Insertion) : Option LogStream :=
  (construct site st leftover after).bind fun r => r.2.insertAll body

/-- The record of a statement. -/
def record (site : Site) (st : Statement) (leftover : Nat → UInt8) (body : List Insertion)
    (after after' after'' : List UInt8) : Option (List UInt8) :=
  (statement site st leftover after body).bind fun s => destruct st s after' after''

end Logger

/-! ## Base names -/

theorem SourceFile.ofArray_eq {path : List UInt8} (h : ∀ b ∈ path, b ≠ 0) :
    ofArray path = ofPointer path := by
  have hdrop : ∀ b ∈ path.drop (baseOffset path), b ≠ 0 := fun b hb => h b (List.mem_of_mem_drop hb)
  have hlen : strlen (path.drop (baseOffset path)) = path.length - baseOffset path := by
    rw [strlen, cstr_eq_self hdrop, List.length_drop]
  simp only [ofArray, ofPointer, hlen]

theorem SourceFile.ofArray_size {path : List UInt8} (h : ∀ b ∈ path, b ≠ 0) :
    strlen (ofArray path).data = (ofArray path).size := by
  rw [ofArray_eq h]
  rfl

/-- What lies behind the last slash of the path. -/
theorem SourceFile.ofArray_data {path : List UInt8} (h : ∀ b ∈ path, b ≠ 0) :
    (ofArray path).data = (path.reverse.takeWhile (· ≠ 47)).reverse := by
  have hsplit : path = (path.reverse.dropWhile (· ≠ 47)).reverse ++
      (path.reverse.takeWhile (· ≠ 47)).reverse := by
    rw [← List.reverse_append, List.takeWhile_append_dropWhile, List.reverse_reverse]
  have hlen := congrArg List.length hsplit
  simp only [List.length_append, List.length_reverse] at hlen
  have hoff : baseOffset path = ((path.reverse.dropWhile (· ≠ 47)).reverse).length := by
    rw [baseOffset, strlen, cstr_eq_self h, List.length_reverse]
    omega
  show path.drop (baseOffset path) = _
  rw [hoff]
  conv_lhs => arg 2; rw [hsplit]
  exact List.drop_left

theorem SourceFile.no_slash {path : List UInt8} (h : ∀ b ∈ path, b ≠ 0) :
    47 ∉ (ofArray path).data := by
  rw [ofArray_data h, List.mem_reverse]
  intro hmem
  simpa using List.mem_takeWhile_imp hmem

/-! ## Insertions that are defined -/

/-- `append` copies the bytes of the text up to its length. -/
def Text.Copied (t : Text) : Prop :=
  t.len ≤ strlen t.ptr + 1 ∧ (cstr t.ptr ++ [0]).take t.len = t.bytes

def Insertion.Copied : Insertion → Prop
  | .text t => t.Copied
  | .number _ => True

theorem Text.Ok.isCopied {t : Text} (h : t.Ok) : t.Copied := h.copied.2

/-- A character is copied whatever lies behind it. -/
theorem char_copied (ch : UInt8) (after : List UInt8) : (Text.char ch after).Copied := by
  refine ⟨by simp [Text.len], ?_⟩
  by_cases hc : ch = 0
  · subst hc
    rfl
  · have hcstr : cstr (ch :: after) = ch :: cstr after :=
      List.takeWhile_cons_of_pos (by simpa using hc)
    simp [Text.ptr, Text.len, Text.bytes, hcstr]

/-- **A defined insertion** adds its bytes when they fit, and changes nothing otherwise. -/
theorem LogStream.insert_text {s s' : LogStream} {i : Insertion} (hi : i.Copied)
    (h : s.insert i = some s') :
    s'.buffer.toString = Op.apply s.buffer.toString (.insert i) := by
  have havail : kSmallBuffer - s.buffer.toString.length = s.buffer.avail := by
    rw [FixedBuffer.length_toString]
    rfl
  show s'.buffer.toString = if i.need ≤ kSmallBuffer - s.buffer.toString.length then
    s.buffer.toString ++ i.bytes else s.buffer.toString
  rw [havail]
  cases i with
  | number n =>
    obtain ⟨s1, hs1, hacc, hrej⟩ := s.insert_number n
    rw [hs1] at h
    cases h
    by_cases ha : kMaxNumericSize ≤ s.buffer.avail
    · rw [if_pos (show (Insertion.number n).need ≤ _ from ha)]
      exact (hacc ha).text_eq
    · rw [if_neg (show ¬ (Insertion.number n).need ≤ _ from ha), hrej ha]
  | text t =>
    obtain ⟨b', hb, e⟩ : ∃ b', s.buffer.append t.ptr t.len = some b' ∧ mk b' = s' :=
      Option.map_eq_some_iff.mp h
    subst e
    by_cases ha : t.len < s.buffer.avail
    · rw [if_pos (show (Insertion.text t).need ≤ _ from ha)]
      show b'.toString = _ ++ t.bytes
      rw [FixedBuffer.append_toString hb ha hi.1, hi.2]
    · rw [if_neg (show ¬ (Insertion.text t).need ≤ _ from ha)]
      rw [FixedBuffer.append_rejected (Nat.le_of_not_lt ha)] at hb
      cases hb
      rfl

theorem LogStream.insertAll_text {s s' : LogStream} {is : List Insertion}
    (hi : ∀ i ∈ is, i.Copied) (h : s.insertAll is = some s') :
    s'.buffer.toString = is.foldl (fun t i => Op.apply t (.insert i)) s.buffer.toString := by
  induction is generalizing s with
  | nil =>
    cases h
    rfl
  | cons i is ih =>
    obtain ⟨u, hu, h⟩ := Lts.exec_cons h
    rw [ih (fun j hj => hi j (List.mem_cons_of_mem _ hj)) h,
      LogStream.insert_text (hi i List.mem_cons_self) hu]
    rfl

/-- In a stream with this text, the copy of the piece stays in the buffer. -/
def Insertion.Confined (text : List UInt8) : Insertion → Prop
  | .text t => kSmallBuffer - text.length ≤ t.len ∨ strlen t.ptr < kSmallBuffer - text.length
  | .number _ => True

/-- So do the copies of all pieces, one after the other. -/
def LogStream.Confined : List UInt8 → List Insertion → Prop
  | _, [] => True
  | text, i :: is => i.Confined text ∧ Confined (Op.apply text (.insert i)) is

theorem LogStream.insert_defined_iff {s : LogStream} {i : Insertion} :
    (∃ s', s.insert i = some s') ↔ i.Confined s.buffer.toString := by
  have havail : kSmallBuffer - s.buffer.toString.length = s.buffer.avail := by
    rw [FixedBuffer.length_toString]
    rfl
  cases i with
  | number n =>
    obtain ⟨s', hs', -⟩ := s.insert_number n
    exact ⟨fun _ => trivial, fun _ => ⟨s', hs'⟩⟩
  | text t =>
    show _ ↔ kSmallBuffer - s.buffer.toString.length ≤ t.len ∨
      strlen t.ptr < kSmallBuffer - s.buffer.toString.length
    rw [havail]
    constructor
    · rintro ⟨s', h⟩
      obtain ⟨b', hb, -⟩ := Option.map_eq_some_iff.mp (show _ = some s' from h)
      rcases FixedBuffer.append_cases hb with ⟨hfull, -⟩ | ⟨-, hfit, -⟩
      · exact .inl hfull
      · exact .inr hfit
    · intro h
      obtain ⟨b', hb⟩ : ∃ b', s.buffer.append t.ptr t.len = some b' := by
        rcases h with hfull | hfit
        · exact ⟨_, FixedBuffer.append_rejected hfull⟩
        · exact FixedBuffer.append_defined hfit
      exact ⟨⟨b'⟩, Option.map_eq_some_iff.mpr ⟨b', hb, rfl⟩⟩

/-- **A chain of insertions is defined** exactly if no copy leaves the buffer. -/
theorem LogStream.insertAll_defined_iff {s : LogStream} {is : List Insertion}
    (hi : ∀ i ∈ is, i.Copied) :
    (∃ s', s.insertAll is = some s') ↔ Confined s.buffer.toString is := by
  induction is generalizing s with
  | nil => exact ⟨fun _ => trivial, fun _ => ⟨s, rfl⟩⟩
  | cons i is ih =>
    obtain ⟨hcopied, hi⟩ := List.forall_mem_cons.mp hi
    constructor
    · rintro ⟨s', h⟩
      obtain ⟨u, hu, h⟩ := Lts.exec_cons h
      refine ⟨insert_defined_iff.mp ⟨u, hu⟩, ?_⟩
      rw [← insert_text hcopied hu]
      exact (ih hi).mp ⟨s', h⟩
    · rintro ⟨hfirst, hrest⟩
      obtain ⟨u, hu⟩ := insert_defined_iff.mpr hfirst
      rw [← insert_text hcopied hu] at hrest
      obtain ⟨s', hs'⟩ := (ih hi).mpr hrest
      exact ⟨s', Option.bind_eq_some_iff.mpr ⟨u, hu, hs'⟩⟩

/-! ## The trailer -/

namespace Logger

/-- The bytes of a complete trailer. -/
def trailerBytes (st : Statement) : List UInt8 :=
  ascii " - " ++ cstr st.file.data ++ [58] ++ decimal st.line.toInt ++ [10]

theorem trailer_copied {st : Statement} (hf : strlen st.file.data = st.file.size)
    (after after' : List UInt8) : ∀ i ∈ trailer st after after', i.Copied := by
  intro i hi
  simp only [trailer, List.mem_cons, List.not_mem_nil, or_false] at hi
  rcases hi with rfl | rfl | rfl | rfl | rfl
  · exact Text.Ok.isCopied rfl
  · exact Text.Ok.isCopied hf
  · exact char_copied 58 after
  · trivial
  · exact char_copied 10 after'

theorem apply_fits {text : List UInt8} {i : Insertion} (h : i.need ≤ kSmallBuffer - text.length) :
    LogStream.Op.apply text (.insert i) = text ++ i.bytes := if_pos h

theorem apply_full {text : List UInt8} {i : Insertion} (h : kSmallBuffer - text.length < i.need) :
    LogStream.Op.apply text (.insert i) = text := if_neg (Nat.not_le.mpr h)

/-- With room for the longest trailer all five pieces fit. -/
theorem trailer_fits {st : Statement} (hf : strlen st.file.data = st.file.size)
    (after after' : List UInt8) {text : List UInt8}
    (hroom : st.file.size + 36 ≤ kSmallBuffer - text.length) :
    (trailer st after after').foldl (fun t i => LogStream.Op.apply t (.insert i)) text =
      text ++ trailerBytes st := by
  have hbase : st.file.data.take st.file.size = cstr st.file.data := by rw [cstr_eq_take, hf]
  have hsize : (cstr st.file.data).length = st.file.size := hf
  have hdash : (ascii " - ").length = 3 := by decide
  have hcstr : cstr (ascii " - ") = ascii " - " := by decide
  have hstrlen : strlen (ascii " - ") = 3 := by decide
  have hnum : (decimal st.line.toInt).length ≤ 20 := (Number.int st.line).bytes_length
  simp only [trailer, List.foldl_cons, List.foldl_nil]
  rw [apply_fits (i := .text (.cstring (some (ascii " - ")))) ?_,
    apply_fits (i := .text (.piece ⟨st.file.data, st.file.size⟩)) ?_,
    apply_fits (i := .text (.char 58 after)) ?_, apply_fits (i := .number (.int st.line)) ?_,
    apply_fits (i := .text (.char 10 after')) ?_]
  · simp only [Insertion.bytes, Text.bytes, Number.bytes, hbase, trailerBytes, List.append_assoc]
    rfl
  all_goals
    simp only [Insertion.need, Insertion.bytes, Text.bytes, Text.len, Number.bytes, hbase,
      LogStream.kMaxNumericSize, List.length_append, hsize, List.length_singleton, hcstr, hstrlen,
      hdash]
    omega

/-- **The trailer of a record.** A record is handed over exactly if no copy of the trailer leaves
the buffer. It is the text the statement left in the stream followed by those of the five trailer
pieces that fit, each whole or not at all: a text when the free space exceeds its length, the
number when 32 bytes are free. With 36 bytes more than the base name free it ends with the complete
trailer and its newline. -/
theorem record_trailer (site : Site) (st : Statement) (path : List UInt8)
    (hpath : ∀ b ∈ path, b ≠ 0) (hfile : st.file = .ofArray path) (leftover : Nat → UInt8)
    (body : List Insertion) (after after' after'' : List UInt8) (s : LogStream)
    (hs : statement site st leftover after body = some s) :
    ((∃ r, record site st leftover body after after' after'' = some r) ↔
      LogStream.Confined s.buffer.toString (trailer st after' after'')) ∧
    ∀ r, record site st leftover body after after' after'' = some r →
      r = (trailer st after' after'').foldl (fun t i => LogStream.Op.apply t (.insert i))
        s.buffer.toString ∧
      (st.file.size + 36 ≤ s.buffer.avail →
        r = s.buffer.toString ++
          (ascii " - " ++ st.file.data ++ ascii ":" ++ decimal st.line.toInt ++ ascii "\n")) := by
  have hf : strlen st.file.data = st.file.size := by rw [hfile]; exact SourceFile.ofArray_size hpath
  have hdata : cstr st.file.data = st.file.data := by
    refine cstr_eq_self fun b hb => hpath b ?_
    rw [hfile] at hb
    exact List.mem_of_mem_drop hb
  have hrecord : record site st leftover body after after' after'' =
      (s.insertAll (trailer st after' after'')).map fun s => s.buffer.toString := by
    rw [record, hs]
    rfl
  rw [hrecord]
  constructor
  · rw [← LogStream.insertAll_defined_iff (trailer_copied hf after' after'')]
    constructor
    · rintro ⟨r, hr⟩
      obtain ⟨s', hs', -⟩ := Option.map_eq_some_iff.mp hr
      exact ⟨s', hs'⟩
    · rintro ⟨s', hs'⟩
      exact ⟨_, Option.map_eq_some_iff.mpr ⟨s', hs', rfl⟩⟩
  · intro r hr
    obtain ⟨s', hs', e⟩ := Option.map_eq_some_iff.mp hr
    have htext := LogStream.insertAll_text (trailer_copied hf after' after'') hs'
    rw [e] at htext
    refine ⟨htext, fun hroom => ?_⟩
    rw [htext, trailer_fits hf after' after'' (by rw [FixedBuffer.length_toString]; exact hroom),
      trailerBytes, hdata]
    rfl

/-! ## A short body, and one that fills the stream -/

/-- A statement in `log/a.cc`, line 7, of thread 12 on the second day. -/
def sampleSite : Site := ⟨.none, ⟨0, []⟩, 12, ⟨86400000000⟩, fun _ => []⟩

def sampleStatement : Statement := ⟨.INFO, 0, .ofArray (ascii "log/a.cc"), 7, none⟩

def sampleHeader : List UInt8 := ascii "19700102 00:00:00.000000Z    12 INFO  "

theorem sample_statement {body : List Insertion} (hbody : ∀ i ∈ body, i.Ok) :
    ∃ s, statement sampleSite sampleStatement (fun _ => 7) [] body = some s ∧
      s.Holds (body.foldl (fun t i => LogStream.Op.apply t (.insert i)) sampleHeader) := by
  have hheader : (construct sampleSite sampleStatement (fun _ => 7) []).map
      (fun p => p.2.buffer.toString) = some sampleHeader := by decide +kernel
  obtain ⟨p, hp, htext⟩ := Option.map_eq_some_iff.mp hheader
  have hholds : p.2.Holds sampleHeader := by
    refine ⟨htext, ?_⟩
    rw [← FixedBuffer.length_toString, htext]
    decide
  obtain ⟨s, hs, hsholds⟩ := hholds.insertAll hbody
  exact ⟨s, by rw [statement, hp, Option.bind_some, hs], hsholds⟩

theorem sample_trailer : ∀ i ∈ trailer sampleStatement [] [], i.Ok ∧ 2 ≤ i.need := by
  intro i hi
  simp only [trailer, List.mem_cons, List.not_mem_nil, or_false] at hi
  rcases hi with rfl | rfl | rfl | rfl | rfl
  · exact ⟨rfl, by decide⟩
  · exact ⟨(by decide : strlen sampleStatement.file.data = sampleStatement.file.size), by decide⟩
  · exact ⟨rfl, by decide⟩
  · exact ⟨trivial, by decide⟩
  · exact ⟨rfl, by decide⟩

theorem sample_record {body : List Insertion} (hbody : ∀ i ∈ body, i.Ok) :
    record sampleSite sampleStatement (fun _ => 7) body [] [] [] =
      some ((body ++ trailer sampleStatement [] []).foldl
        (fun t i => LogStream.Op.apply t (.insert i)) sampleHeader) := by
  obtain ⟨s, hs, hsholds⟩ := sample_statement hbody
  obtain ⟨s', hs', hs'holds⟩ := hsholds.insertAll fun i hi => (sample_trailer i hi).1
  rw [record, hs, Option.bind_some, destruct, hs', Option.map_some, hs'holds.text_eq,
    List.foldl_append]

def shortBody : List Insertion := [.text (.cstring (some (ascii "hi")))]

theorem record_trailer_short :
    ∃ s, statement sampleSite sampleStatement (fun _ => 7) [] shortBody = some s ∧
      ((∃ r, record sampleSite sampleStatement (fun _ => 7) shortBody [] [] [] = some r) ↔
        LogStream.Confined s.buffer.toString (trailer sampleStatement [] [])) ∧
      ∀ r, record sampleSite sampleStatement (fun _ => 7) shortBody [] [] [] = some r →
        r = (trailer sampleStatement [] []).foldl (fun t i => LogStream.Op.apply t (.insert i))
          s.buffer.toString ∧
        (sampleStatement.file.size + 36 ≤ s.buffer.avail →
          r = s.buffer.toString ++ (ascii " - " ++ sampleStatement.file.data ++ ascii ":" ++
            decimal sampleStatement.line.toInt ++ ascii "\n")) := by
  have hbody : ∀ i ∈ shortBody, i.Ok := by
    intro i hi
    obtain rfl := List.mem_singleton.mp hi
    rfl
  obtain ⟨s, hs, -⟩ := sample_statement hbody
  exact ⟨s, hs, record_trailer sampleSite sampleStatement (ascii "log/a.cc") (ne_zero_of_all rfl)
    rfl (fun _ => 7) _ [] [] [] s hs⟩

/-- Nothing is added to a stream with at most one byte free. -/
theorem foldl_full {text : List UInt8} {is : List Insertion}
    (htext : kSmallBuffer - text.length ≤ 1) (his : ∀ i ∈ is, 2 ≤ i.need) :
    is.foldl (fun t i => LogStream.Op.apply t (.insert i)) text = text := by
  induction is with
  | nil => rfl
  | cons i is ih =>
    have := his i List.mem_cons_self
    rw [List.foldl_cons, apply_full (by omega)]
    exact ih fun j hj => his j (List.mem_cons_of_mem _ hj)

/-- A body of 3961 bytes behind the header of 38 leaves one byte free. -/
def fullBody : List Insertion := [.text (.cstring (some (List.replicate 3961 120)))]

/-- Its record has neither trailer nor newline. -/
theorem record_without_trailer :
    ∃ r, record sampleSite sampleStatement (fun _ => 7) fullBody [] [] [] = some r ∧
      r.getLast? = some 120 ∧
      ¬ (ascii " - " ++ sampleStatement.file.data ++ ascii ":" ++
        decimal sampleStatement.line.toInt ++ ascii "\n") <:+ r := by
  have hlen : sampleHeader.length = 38 := by decide
  have hstr : cstr (List.replicate 3961 (120 : UInt8)) = List.replicate 3961 120 :=
    cstr_eq_self fun b hb => by rw [List.eq_of_mem_replicate hb]; decide
  have hbody : ∀ i ∈ fullBody, i.Ok := by
    intro i hi
    obtain rfl := List.mem_singleton.mp hi
    rfl
  have hx : LogStream.Op.apply sampleHeader
      (.insert (.text (.cstring (some (List.replicate 3961 120))))) =
        sampleHeader ++ List.replicate 3961 120 := by
    rw [apply_fits]
    · show _ ++ cstr _ = _
      rw [hstr]
    · rw [hlen]
      show strlen _ + 1 ≤ 4000 - 38
      rw [strlen, hstr, List.length_replicate]
  have hroom : kSmallBuffer - (sampleHeader ++ List.replicate 3961 (120 : UInt8)).length ≤ 1 := by
    rw [List.length_append, List.length_replicate]
    decide
  have hlast : (sampleHeader ++ List.replicate 3961 (120 : UInt8)).getLast? = some 120 := by
    have hne : List.replicate 3961 (120 : UInt8) ≠ [] :=
      List.ne_nil_of_length_pos (by rw [List.length_replicate]; omega)
    rw [List.getLast?_append_of_ne_nil _ hne, List.getLast?_replicate]
    rfl
  refine ⟨sampleHeader ++ List.replicate 3961 120, ?_, hlast, ?_⟩
  · rw [sample_record hbody, List.foldl_append, fullBody, List.foldl_cons, List.foldl_nil, hx,
      foldl_full hroom fun i hi => (sample_trailer i hi).2]
  · rintro ⟨t, ht⟩
    rw [← ht, ← List.append_assoc, List.getLast?_append_of_ne_nil _ (by decide)] at hlast
    revert hlast
    decide

end Logger

end MultiThreadLog
