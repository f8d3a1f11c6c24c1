import MultiThreadLog.Logging.Logger
import MultiThreadLog.Logging.TimeCache
import MultiThreadLog.Time.TextOrder

/-!
# What a record tells

The constructor's first five insertions always fit, so a record starts with the time, the thread
and the level (`Logger.head`); with room for the trailer it ends with the line. `readRecord` reads
these fields back, whatever the statement inserted in between: equal records were made in the same
microsecond by the same thread, with one level, at lines of one number (`record_tells`). The time
comes first and has a fixed width, so records in UTC are sorted by it (`records_sort`).

All of this asks that the inserted texts are free of NUL bytes (`Insertion.Clean`) and that the
thread has formatted its cached second in the zone in force (`InZone`).
-/

namespace MultiThreadLog

open Bytes Numeral

/-! ## Times by their parts -/

namespace Timestamp

variable {t t' : Timestamp}

theorem eq_of_parts (hsec : t.seconds = t'.seconds) (hmicro : t.microseconds = t'.microseconds) :
    t = t' := by
  have hdiv := Int.mul_tdiv_add_tmod t.microSecondsSinceEpoch kMicroSecondsPerSecond
  have hdiv' := Int.mul_tdiv_add_tmod t'.microSecondsSinceEpoch kMicroSecondsPerSecond
  unfold seconds at hsec
  unfold microseconds at hmicro
  rw [hsec, hmicro, hdiv'] at hdiv
  obtain ⟨v⟩ := t
  exact congrArg mk hdiv.symm

/-- The seconds first, then the microseconds. -/
theorem lt_iff_parts (h : 1 ≤ t.seconds) (h' : 1 ≤ t'.seconds) : t.lt t' = true ↔
    t.seconds < t'.seconds ∨ t.seconds = t'.seconds ∧ t.microseconds < t'.microseconds := by
  have hk : kMicroSecondsPerSecond = 1000000 := rfl
  have hmicro := LogTimes.microseconds_of_second h
  have hmicro' := LogTimes.microseconds_of_second h'
  have hdiv := Int.mul_tdiv_add_tmod t.microSecondsSinceEpoch kMicroSecondsPerSecond
  have hdiv' := Int.mul_tdiv_add_tmod t'.microSecondsSinceEpoch kMicroSecondsPerSecond
  rw [hk] at hdiv hdiv'
  rw [lt, decide_eq_true_eq]
  simp only [seconds, microseconds, hk] at hmicro hmicro' ⊢
  omega

theorem lt_of_not_lt (hne : t ≠ t') (h : ¬ t.lt t' = true) : t'.lt t = true := by
  obtain ⟨v⟩ := t
  obtain ⟨v'⟩ := t'
  simp only [lt, decide_eq_true_eq] at h ⊢
  have : v ≠ v' := fun e => hne (by rw [e])
  omega

end Timestamp

/-- Without a zone the clock shows UTC. -/
theorem localSecond_utc {z : TimeZone} {sec : Int} (hz : z.valid = false) :
    localSecond z sec = some sec := by
  rw [localSecond, brokenDown, if_neg (by simp [hz]), Option.map_some]
  exact congrArg some (Int.add_zero sec)

/-! ## Insertions without NUL bytes -/

structure Insertion.Clean (i : Insertion) : Prop where
  copied : i.Copied
  zeroFree : ∀ b ∈ i.bytes, b ≠ 0

theorem ne_zero_of_mem_cstr {p : List UInt8} {b : UInt8} (h : b ∈ cstr p) : b ≠ 0 := by
  simpa using List.mem_takeWhile_imp h

theorem ne_zero_of_mem_blankField {w : Nat} {v : Int} {b : UInt8} (h : b ∈ blankField w v) :
    b ≠ 0 := ne_zero_of_mem_padLeft (by decide) (fun _ hx => ne_zero_of_mem_decimal hx) h

theorem ne_zero_of_mem_hexUpper {n : Nat} {b : UInt8} (h : b ∈ hexUpper n) : b ≠ 0 := by
  rw [← convertHexLoop_reverse, List.mem_reverse] at h
  induction n using Nat.strongRecOn with
  | ind n ih =>
    rw [convertHexLoop, List.mem_cons] at h
    rcases h with rfl | h
    · have key : ∀ k : Fin 16, digitsHex.getD k.val 0 ≠ 0 := by decide
      exact key ⟨n % 16, Nat.mod_lt n (by omega)⟩
    · split at h
      · rename_i hn
        exact ih (n / 16) (Nat.div_lt_self (by omega) (by decide)) h
      · cases h

theorem Number.clean (n : Number) : (Insertion.number n).Clean := by
  refine ⟨trivial, fun b hb => ?_⟩
  cases n with
  | pointer p =>
    rcases List.mem_append.mp hb with hb | hb
    · exact ne_zero_of_all (p := ascii "0x") rfl b hb
    · exact ne_zero_of_mem_hexUpper hb
  | short v | int v | long v | longlong v => exact @ne_zero_of_mem_decimal v.toInt b hb
  | ushort v | uint v | ulong v | ulonglong v => exact @ne_zero_of_mem_decimal v.toNat b hb

theorem cstring_clean (str : Option (List UInt8)) : (Insertion.text (.cstring str)).Clean := by
  cases str with
  | none =>
    have hok : strlen (ascii "(null)") = 6 := by decide
    exact ⟨Text.Ok.isCopied hok, ne_zero_of_all rfl⟩
  | some str => exact ⟨Text.Ok.isCopied rfl, fun b hb => ne_zero_of_mem_cstr hb⟩

theorem char_clean {ch : UInt8} (hc : ch ≠ 0) (after : List UInt8) :
    (Insertion.text (.char ch after)).Clean :=
  ⟨char_copied ch after, fun b hb => by rwa [List.mem_singleton.mp hb]⟩

/-- A piece whose text ends at its length. -/
theorem piece_clean {p : StringPiece} (h : strlen p.ptr = p.length) :
    (Insertion.text (.piece p)).Clean := by
  refine ⟨Text.Ok.isCopied h, fun b hb => ?_⟩
  have hb' : b ∈ p.ptr.take p.length := hb
  rw [← h, ← cstr_eq_take] at hb'
  exact ne_zero_of_mem_cstr hb'

theorem apply_cases (text : List UInt8) (i : Insertion) :
    LogStream.Op.apply text (.insert i) = text ++ i.bytes ∨
      LogStream.Op.apply text (.insert i) = text := by
  unfold LogStream.Op.apply
  dsimp only
  split
  · exact .inl rfl
  · exact .inr rfl

/-- A stream without NUL bytes stays so. -/
theorem foldl_zeroFree {is : List Insertion} {text : List UInt8} (ht : ∀ b ∈ text, b ≠ 0)
    (hi : ∀ i ∈ is, i.Clean) :
    ∀ b ∈ is.foldl (fun t i => LogStream.Op.apply t (.insert i)) text, b ≠ 0 := by
  induction is generalizing text with
  | nil => exact ht
  | cons i is ih =>
    rw [List.foldl_cons]
    refine ih ?_ fun j hj => hi j (List.mem_cons_of_mem _ hj)
    rcases apply_cases text i with e | e
    · rw [e]
      intro b hb
      rcases List.mem_append.mp hb with hb | hb
      · exact ht b hb
      · exact (hi i List.mem_cons_self).zeroFree b hb
    · rw [e]
      exact ht

/-- Insertions only add. -/
theorem foldl_isPrefix (is : List Insertion) (text : List UInt8) :
    text <+: is.foldl (fun t i => LogStream.Op.apply t (.insert i)) text := by
  induction is generalizing text with
  | nil => exact List.prefix_refl _
  | cons i is ih =>
    rw [List.foldl_cons]
    refine List.IsPrefix.trans ?_ (ih _)
    rcases apply_cases text i with e | e
    · rw [e]
      exact List.prefix_append _ _
    · rw [e]

namespace Logger

variable {site site' : Site} {st st' : Statement} {s s' : LogStream} {leftover : Nat → UInt8}
  {body : List Insertion} {after after' after'' r r' : List UInt8} {z : TimeZone}

theorem levelName_length (l : LogLevel) : (LogLevelName l).length = 6 := by cases l <;> decide

theorem levelName_zeroFree (l : LogLevel) : ∀ b ∈ LogLevelName l, b ≠ 0 := by
  cases l <;> exact ne_zero_of_all rfl

/-- The first letters are different. -/
theorem levelName_inj {l l' : LogLevel} (h : LogLevelName l = LogLevelName l') : l = l' := by
  have hhead : (LogLevelName l).head? = (LogLevelName l').head? := by rw [h]
  cases l <;> cases l' <;> first | rfl | exact absurd hhead (by decide)

/-- A `pid_t` that is a thread's. -/
def ThreadId (tid : Int) : Prop := 0 ≤ tid ∧ tid < 2 ^ 31

theorem tidString_eq {tid : Int} (h : ThreadId tid) :
    tidString tid = blankField 5 tid ∧ (blankField 5 tid).length ≤ 10 := by
  have hlen : (decimal tid).length ≤ 10 := by
    rw [decimal_of_nonneg h.1]
    have hlt := h.2
    have h0 := h.1
    exact decimalNat_length_le (by omega) (by omega)
  have hle : (blankField 5 tid).length ≤ 10 := by
    rw [blankField, padLeft, List.length_append, List.length_replicate]
    omega
  exact ⟨List.take_of_length_le (by omega), hle⟩

theorem tidPiece_ok {tid : Int} (h : ThreadId tid) :
    strlen (tidString tid) = (blankField 5 tid).length := by
  rw [(tidString_eq h).1, strlen, cstr_eq_self fun b hb => ne_zero_of_mem_blankField hb]

theorem levelPiece_ok (l : LogLevel) : strlen (LogLevelName l) = 6 := by
  rw [strlen, cstr_eq_self (levelName_zeroFree l), levelName_length]

theorem header_clean (h : ThreadId site.tid) (st : Statement) (after : List UInt8) :
    ∀ i ∈ header site st after, i.Clean := by
  intro i hi
  rcases List.mem_append.mp hi with hi | hi
  · rcases List.mem_append.mp hi with hi | hi
    · simp only [List.mem_cons, List.not_mem_nil, or_false] at hi
      rcases hi with rfl | rfl | rfl
      · exact piece_clean (tidPiece_ok h)
      · exact cstring_clean _
      · exact piece_clean (levelPiece_ok st.level)
    · split at hi
      · simp only [List.mem_cons, List.not_mem_nil, or_false] at hi
        rcases hi with rfl | rfl | rfl | rfl
        · exact cstring_clean _
        · exact cstring_clean _
        · exact Number.clean _
        · exact cstring_clean _
      · cases hi
  · split at hi
    · simp only [List.mem_cons, List.not_mem_nil, or_false] at hi
      rcases hi with rfl | rfl
      · exact cstring_clean _
      · exact char_clean (by decide) _
    · cases hi

theorem trailer_clean (hf : strlen st.file.data = st.file.size) (after after' : List UInt8) :
    ∀ i ∈ trailer st after after', i.Clean := by
  intro i hi
  simp only [trailer, List.mem_cons, List.not_mem_nil, or_false] at hi
  rcases hi with rfl | rfl | rfl | rfl | rfl
  · exact cstring_clean _
  · exact piece_clean hf
  · exact char_clean (by decide) _
  · exact Number.clean _
  · exact char_clean (by decide) _

/-! ## How a record starts -/

/-- The thread formatted its cached second in the zone, or has not cached any. -/
def InZone (z : TimeZone) (tl : ThreadLocals) : Prop :=
  ∃ v, LogTimes.Caches tl v ∧ (1 ≤ v.lastSecond → v.zone = z)

/-- The clock is past the first second, and shows years of four digits. -/
structure Timely (site : Site) : Prop where
  second : 1 ≤ site.time.seconds
  year : ∀ u, localSecond site.g_logTimeZone site.time.seconds = some u → FourDigitYear u

/-- The fixed start: time, thread and level. -/
def head (site : Site) (st : Statement) (u : Int) : List UInt8 :=
  dateTimeText (gmtime u) ++ (microsecondText site.g_logTimeZone site.time.microseconds).text ++
    blankField 5 site.tid ++ ascii " " ++ LogLevelName st.level

theorem timeText_length {us : Int} (h0 : 0 ≤ us) (h1 : us < 1000000) {u : Int}
    (hu : FourDigitYear u) :
    (dateTimeText (gmtime u) ++ (microsecondText z us).text).length ≤ 26 := by
  have h17 := LogTimes.dateTimeText_gmtime_length hu
  have h9 := microsecondText_length (z := z) h0 h1
  rw [List.length_append]
  omega

/-- The first three insertions behind the time fit. -/
theorem header_starts (h : ThreadId site.tid) (st : Statement) (after : List UInt8)
    {text : List UInt8} (htext : text.length ≤ 26) :
    text ++ blankField 5 site.tid ++ ascii " " ++ LogLevelName st.level <+:
      (header site st after).foldl (fun t i => LogStream.Op.apply t (.insert i)) text := by
  obtain ⟨etid, htid⟩ := tidString_eq h
  have hblank : (ascii " ").length = 1 := by decide
  have hcstr : cstr (ascii " ") = ascii " " := by decide
  have hstrlen : strlen (ascii " ") = 1 := by decide
  have hlevel : (LogLevelName st.level).take 6 = LogLevelName st.level :=
    List.take_of_length_le (Nat.le_of_eq (levelName_length _))
  have htake : (tidString site.tid).take (blankField 5 site.tid).length =
      blankField 5 site.tid := by
    rw [etid, List.take_length]
  have hstart : text ++ blankField 5 site.tid ++ ascii " " ++ LogLevelName st.level =
      ((header site st after).take 3).foldl (fun t i => LogStream.Op.apply t (.insert i)) text := by
    have hthree : (header site st after).take 3 =
        [.text (.piece ⟨tidString site.tid, (blankField 5 site.tid).length⟩),
          .text (.cstring (some (ascii " "))), .text (.piece ⟨LogLevelName st.level, 6⟩)] := rfl
    simp only [hthree, List.foldl_cons, List.foldl_nil]
    rw [apply_fits (i := .text (.piece ⟨tidString site.tid, (blankField 5 site.tid).length⟩)) ?_,
      apply_fits (i := .text (.cstring (some (ascii " ")))) ?_,
      apply_fits (i := .text (.piece ⟨LogLevelName st.level, 6⟩)) ?_]
    · simp only [Insertion.bytes, Text.bytes, htake, hcstr, hlevel]
    all_goals
      simp only [Insertion.need, Insertion.bytes, Text.bytes, Text.len, htake, hcstr, hstrlen,
        List.length_append, hblank, kSmallBuffer]
      omega
  rw [hstart]
  conv_rhs => rw [← List.take_append_drop 3 (header site st after), List.foldl_append]
  exact foldl_isPrefix _ _

theorem InZone.caches {tl : ThreadLocals} {sec : Int} (hsec : 1 ≤ sec) (h : InZone z tl) :
    ∃ v, LogTimes.Caches tl v ∧ (if sec ≠ v.lastSecond then z else v.zone) = z ∧
      (1 ≤ v.lastSecond → v.zone = z) := by
  obtain ⟨v, hc, hz⟩ := h
  refine ⟨v, hc, ?_, hz⟩
  split
  · rfl
  · rename_i hsame
    exact hz (by omega)

/-- **The stream of a statement**: it starts with the head, has no NUL byte, and the thread keeps
its second in the zone in force. -/
theorem construct_text {p : ThreadLocals × LogStream} (ht : Timely site) (htid : ThreadId site.tid)
    (hz : InZone site.g_logTimeZone site.thread) (hp : construct site st leftover after = some p) :
    ∃ u, localSecond site.g_logTimeZone site.time.seconds = some u ∧ FourDigitYear u ∧
      InZone site.g_logTimeZone p.1 ∧ head site st u <+: p.2.buffer.toString ∧
      ∀ b ∈ p.2.buffer.toString, b ≠ 0 := by
  obtain ⟨⟨tl', stream⟩, hq, hp⟩ := Option.bind_eq_some_iff.mp hp
  obtain ⟨s1, hs1, rfl⟩ := Option.map_eq_some_iff.mp hp
  obtain ⟨v, hc, hv, hvz⟩ := hz.caches ht.second
  obtain ⟨u, hc', hu, hyear, htext⟩ := LogTimes.formatTime_eq hc ht.second ht.year hq
  rw [hv] at hu
  obtain ⟨hus0, hus1⟩ := LogTimes.microseconds_of_second ht.second
  have hclean := header_clean htid st after
  have hfold := LogStream.insertAll_text (fun i hi => (hclean i hi).copied) hs1
  rw [htext] at hfold
  refine ⟨u, hu, hyear, ⟨_, hc', fun hlast => ?_⟩, ?_, fun b hb => ?_⟩
  · by_cases hsame : site.time.seconds = v.lastSecond
    · rw [if_neg (not_not.mpr hsame)] at hlast ⊢
      exact hvz hlast
    · rw [if_pos hsame]
  · rw [hfold]
    exact header_starts htid st after (timeText_length hus0 hus1 hyear)
  · rw [hfold] at hb
    refine foldl_zeroFree (fun c hc => ?_) hclean b hb
    rcases List.mem_append.mp hc with hc | hc
    · exact ne_zero_of_mem_dateTimeText hc
    · exact ne_zero_of_mem_microsecondText hc

/-- A statement whose record can be read: the environment, and what it inserts. -/
structure Orderly (site : Site) (st : Statement) (body : List Insertion) : Prop where
  timely : Timely site
  tid : ThreadId site.tid
  zone : InZone site.g_logTimeZone site.thread
  file : strlen st.file.data = st.file.size
  body : ∀ i ∈ body, i.Clean

theorem Orderly.statement (h : Orderly site st body)
    (hs : statement site st leftover after body = some s) :
    ∃ u, localSecond site.g_logTimeZone site.time.seconds = some u ∧ FourDigitYear u ∧
      head site st u <+: s.buffer.toString ∧ ∀ b ∈ s.buffer.toString, b ≠ 0 := by
  obtain ⟨p, hp, hb⟩ := Option.bind_eq_some_iff.mp hs
  obtain ⟨u, hu, hyear, -, hpre, hzero⟩ := construct_text h.timely h.tid h.zone hp
  have hfold := LogStream.insertAll_text (fun i hi => (h.body i hi).copied) hb
  refine ⟨u, hu, hyear, ?_, ?_⟩
  · rw [hfold]
    exact hpre.trans (foldl_isPrefix _ _)
  · rw [hfold]
    exact foldl_zeroFree hzero h.body

/-- The record starts with what the statement left, and with room it ends with the trailer. -/
theorem destruct_text (hf : strlen st.file.data = st.file.size)
    (hr : destruct st s after' after'' = some r) :
    s.buffer.toString <+: r ∧ ((∀ b ∈ s.buffer.toString, b ≠ 0) → ∀ b ∈ r, b ≠ 0) ∧
      (st.file.size + 36 ≤ s.buffer.avail → r = s.buffer.toString ++ trailerBytes st) := by
  obtain ⟨s', hs', rfl⟩ := Option.map_eq_some_iff.mp hr
  rw [LogStream.insertAll_text (trailer_copied hf after' after'') hs']
  refine ⟨foldl_isPrefix _ _, fun hzero => foldl_zeroFree hzero (trailer_clean hf _ _),
    fun hroom => trailer_fits hf after' after'' ?_⟩
  rw [FixedBuffer.length_toString]
  exact hroom

/-! ## Reading it back -/

/-- What a reader takes from a record. -/
structure Fields where
  time : List UInt8
  microseconds : Nat
  utc : Bool
  tid : Nat
  level : List UInt8
  line : Option Int

/-- The time has seventeen bytes and the microseconds six digits, a `Z` marks UTC; the thread and
the level lie between blanks, the line between the last colon and the newline. -/
def readRecord (r : List UInt8) : Fields :=
  let utc := (r.drop 24).head? == some 90
  let rest := (r.drop (if utc then 26 else 25)).dropWhile (· = 32)
  { time := r.take 17
    microseconds := valueOf ((r.drop 18).take 6)
    utc
    tid := valueOf (rest.takeWhile (· ≠ 32))
    level := (rest.dropWhile (· ≠ 32)).tail.take 6
    line := readInt (r.dropLast.reverse.takeWhile (· ≠ 58)).reverse }

theorem takeWhile_field {c : UInt8} {l t : List UInt8} (h : c ∉ l) :
    (l ++ c :: t).takeWhile (· ≠ c) = l := by
  rw [List.takeWhile_append_of_pos fun b hb => by simpa using fun e : b = c => h (e ▸ hb)]
  simp

theorem dropWhile_field {c : UInt8} {l t : List UInt8} (h : c ∉ l) :
    (l ++ c :: t).dropWhile (· ≠ c) = c :: t := by
  rw [List.dropWhile_append_of_pos fun b hb => by simpa using fun e : b = c => h (e ▸ hb)]
  simp

theorem byte_of_mem_decimal {v : Int} {b : UInt8} (h : b ∈ decimal v) :
    b = 45 ∨ 48 ≤ b.toNat ∧ b.toNat < 58 := by
  unfold decimal at h
  split at h
  · rcases List.mem_cons.mp h with rfl | h
    · exact .inl rfl
    · exact .inr (digit_of_mem h)
  · exact .inr (digit_of_mem h)

theorem blank_not_mem_decimal (v : Int) : 32 ∉ decimal v := fun h => by
  rcases byte_of_mem_decimal h with e | e
  · cases e
  · exact absurd e.1 (by decide)

theorem colon_not_mem_decimal (v : Int) : 58 ∉ decimal v := fun h => by
  rcases byte_of_mem_decimal h with e | e
  · cases e
  · exact absurd e.2 (by decide)

/-- Behind the blanks of its field a numeral starts. -/
theorem dropWhile_blankField {w : Nat} {v : Int} {t : List UInt8} (hne : decimal v ≠ []) :
    (blankField w v ++ t).dropWhile (· = 32) = decimal v ++ t := by
  rw [blankField, padLeft, List.append_assoc,
    List.dropWhile_append_of_pos fun b hb => by simpa using List.eq_of_mem_replicate hb]
  obtain ⟨b, l, e⟩ := List.exists_cons_of_ne_nil hne
  have hb : b ≠ 32 := fun h => blank_not_mem_decimal v (by rw [e, h]; exact List.mem_cons_self)
  rw [e, List.cons_append, List.dropWhile_cons_of_neg (by simpa using hb)]

/-- **The fields of a record**, whatever stands between the level and the line. -/
theorem readRecord_eq (date level mid : List UInt8) (us tid line : Int) (valid : Bool)
    (hdate : date.length = 17) (hus : Fits 6 us) (htid : 0 ≤ tid) (hlevel : level.length = 6) :
    readRecord (date ++ (46 :: (zeroField 6 us ++ (ascii (if valid then " " else "Z ") ++
      (blankField 5 tid ++ (32 :: (level ++ (mid ++ (58 :: (decimal line ++ [10])))))))))) =
      ⟨date, us.toNat, !valid, tid.toNat, level, some line⟩ := by
  have h6 : (zeroField 6 us).length = 6 := zeroField_length (by omega) hus.1 hus.2
  have hne : decimal tid ≠ [] := fun e => by
    have := readInt_decimal tid
    rw [e] at this
    cases this
  generalize hrest : level ++ (mid ++ (58 :: (decimal line ++ [10]))) = rest
  generalize hr : date ++ (46 :: (zeroField 6 us ++ (ascii (if valid then " " else "Z ") ++
    (blankField 5 tid ++ (32 :: rest))))) = r
  have htime : r.take 17 = date := by rw [← hr, ← hdate, List.take_left]
  have h17 : ∀ k, r.drop (17 + k) = (46 :: (zeroField 6 us ++
      (ascii (if valid then " " else "Z ") ++ (blankField 5 tid ++ (32 :: rest))))).drop k := by
    intro k
    rw [← hr, ← List.drop_drop, ← hdate, List.drop_left]
  have h24 : ∀ k, r.drop (24 + k) = (ascii (if valid then " " else "Z ") ++
      (blankField 5 tid ++ (32 :: rest))).drop k := by
    intro k
    rw [show 24 + k = 17 + (k + 6 + 1) by omega, h17, List.drop_succ_cons,
      show k + 6 = (zeroField 6 us).length + k by omega, ← List.drop_drop, List.drop_left]
  have hmicro : (r.drop 18).take 6 = zeroField 6 us := by
    rw [h17 1, List.drop_succ_cons, List.drop_zero]
    exact List.take_left' h6
  have hutc : ((r.drop 24).head? == some 90) = !valid := by
    rw [h24 0, List.drop_zero]
    cases valid <;> rfl
  have hdrop : r.drop (if !valid then 26 else 25) = blankField 5 tid ++ (32 :: rest) := by
    cases valid with
    | true => exact h24 1
    | false => exact h24 2
  have hlast : r.dropLast.reverse.takeWhile (· ≠ 58) = (decimal line).reverse := by
    have hsplit : r = (date ++ (46 :: (zeroField 6 us ++ (ascii (if valid then " " else "Z ") ++
        (blankField 5 tid ++ (32 :: (level ++ mid))))))) ++ [58] ++ decimal line ++ [10] := by
      rw [← hr, ← hrest]
      simp only [List.append_assoc, List.cons_append, List.nil_append]
    rw [hsplit, List.dropLast_concat, List.reverse_append, List.reverse_append,
      List.reverse_singleton, List.singleton_append]
    exact takeWhile_field fun h => colon_not_mem_decimal line (List.mem_reverse.mp h)
  unfold readRecord
  rw [Fields.mk.injEq]
  simp only [hutc, hdrop, hlast, htime, hmicro, dropWhile_blankField hne,
    takeWhile_field (blank_not_mem_decimal tid), dropWhile_field (blank_not_mem_decimal tid),
    List.reverse_reverse, readInt_decimal, List.tail_cons]
  refine ⟨trivial, ?_, trivial, ?_, ?_, trivial⟩
  · rw [zeroField_of_nonneg hus.1, valueOf_padLeft]
    have := hus.1
    omega
  · rw [decimal_of_nonneg htid, valueOf_decimalNat]
    omega
  · rw [← hrest, ← hlevel, List.take_left]

/-- The fields of a statement that its record tells. -/
def tells (site : Site) (st : Statement) (u : Int) : Fields where
  time := dateTimeText (gmtime u)
  microseconds := site.time.microseconds.toNat
  utc := !site.g_logTimeZone.valid
  tid := site.tid.toNat
  level := LogLevelName st.level
  line := some st.line.toInt

theorem Orderly.read (h : Orderly site st body)
    (hs : Logger.statement site st leftover after body = some s)
    (hroom : st.file.size + 36 ≤ s.buffer.avail) (hr : destruct st s after' after'' = some r) :
    ∃ u, localSecond site.g_logTimeZone site.time.seconds = some u ∧ FourDigitYear u ∧
      readRecord r = tells site st u := by
  obtain ⟨u, hu, hyear, ⟨mid, hmid⟩, -⟩ := h.statement hs
  have htext := (destruct_text h.file hr).2.2 hroom
  have hread := readRecord_eq (dateTimeText (gmtime u)) (LogLevelName st.level)
    (mid ++ (ascii " - " ++ cstr st.file.data)) site.time.microseconds site.tid st.line.toInt
    site.g_logTimeZone.valid (LogTimes.dateTimeText_gmtime_length hyear)
    (LogTimes.microseconds_of_second h.timely.second) h.tid.1 (levelName_length _)
  have hdot : ascii "." = [46] := by decide
  have hblank : ascii " " = [32] := by decide
  refine ⟨u, hu, hyear, ?_⟩
  rw [htext, ← hmid]
  simp only [List.append_assoc] at hread
  simp only [head, microsecondText, trailerBytes, hdot, hblank, List.append_assoc,
    List.cons_append, List.nil_append]
  exact hread

/-- **A record tells where it is from.** Two orderly statements: when their records are complete and
equal, both were made at one time on the clock of the zone and in one microsecond, by one thread,
with one level, at lines of one number. -/
theorem record_tells (site site' : Site) (st st' : Statement) (body body' : List Insertion)
    (h : Orderly site st body) (h' : Orderly site' st' body') (leftover leftover' : Nat → UInt8)
    (after after1 after2 after' after1' after2' : List UInt8) (s s' : LogStream)
    (hs : statement site st leftover after body = some s)
    (hs' : statement site' st' leftover' after' body' = some s')
    (hroom : st.file.size + 36 ≤ s.buffer.avail)
    (hroom' : st'.file.size + 36 ≤ s'.buffer.avail) (r : List UInt8)
    (hr : destruct st s after1 after2 = some r) (hr' : destruct st' s' after1' after2' = some r) :
    localSecond site.g_logTimeZone site.time.seconds =
        localSecond site'.g_logTimeZone site'.time.seconds ∧
      site.time.microseconds = site'.time.microseconds ∧
      site.g_logTimeZone.valid = site'.g_logTimeZone.valid ∧
      (site.g_logTimeZone.valid = false → site.time = site'.time) ∧
      site.tid = site'.tid ∧ st.level = st'.level ∧ st.line = st'.line := by
  obtain ⟨u, hu, hyear, hread⟩ := h.read hs hroom hr
  obtain ⟨u', hu', hyear', hread'⟩ := h'.read hs' hroom' hr'
  have e := hread.symm.trans hread'
  simp only [tells, Fields.mk.injEq, Bool.not_inj_iff, Option.some_inj] at e
  obtain ⟨etime, emicro, evalid, etid, elevel, eline⟩ := e
  have esecond : localSecond site.g_logTimeZone site.time.seconds =
      localSecond site'.g_logTimeZone site'.time.seconds := by
    rw [hu, hu', dateTimeText_inj hyear hyear' etime]
  have emicros : site.time.microseconds = site'.time.microseconds := by
    have := (LogTimes.microseconds_of_second h.timely.second).1
    have := (LogTimes.microseconds_of_second h'.timely.second).1
    omega
  have etids : site.tid = site'.tid := by
    have := h.tid.1
    have := h'.tid.1
    omega
  refine ⟨esecond, emicros, evalid, fun hutc => Timestamp.eq_of_parts ?_ emicros, etids,
    levelName_inj elevel, Int32.toInt_inj.mp eline⟩
  rw [localSecond_utc hutc, localSecond_utc (evalid ▸ hutc)] at esecond
  exact Option.some_inj.mp esecond

theorem sample_orderly (time : Timestamp)
    (htime : 1 ≤ time.seconds ∧ time.seconds < 2932897 * 86400) {body : List Insertion}
    (hbody : ∀ i ∈ body, i.Clean) :
    Orderly { sampleSite with time := time } sampleStatement body := by
  have htid : ThreadId 12 := ⟨by decide, by decide⟩
  refine ⟨⟨htime.1, fun u hu => ?_⟩, htid, ⟨⟨0, .none⟩, ⟨rfl, ?_⟩, ?_⟩,
    @SourceFile.ofArray_size (ascii "log/a.cc") (ne_zero_of_all rfl), hbody⟩
  · have hu' : localSecond .none time.seconds = some u := hu
    rw [localSecond_utc rfl, Option.some_inj] at hu'
    unfold FourDigitYear
    omega
  · exact fun h => absurd h (by decide)
  · exact fun h => absurd h (by decide)

/-- The two letters as one string, and as two characters. -/
def hiString : List Insertion := [.text (.cstring (some (ascii "hi")))]

def hiChars : List Insertion := [.text (.char 104 []), .text (.char 105 [])]

/-- Two ways to the same record. -/
theorem record_tells_twoWays : ∃ s s' r,
    statement sampleSite sampleStatement (fun _ => 7) [] hiString = some s ∧
    statement sampleSite sampleStatement (fun _ => 7) [] hiChars = some s' ∧
    destruct sampleStatement s [] [] = some r ∧ destruct sampleStatement s' [] [] = some r ∧
    sampleSite.time = sampleSite.time ∧ sampleStatement.line = sampleStatement.line := by
  have clean : ∀ i ∈ hiString ++ hiChars, i.Clean := by
    intro i hi
    simp only [hiString, hiChars, List.mem_append, List.mem_cons, List.not_mem_nil, or_false] at hi
    rcases hi with rfl | rfl | rfl
    · exact cstring_clean _
    · exact char_clean (by decide) _
    · exact char_clean (by decide) _
  have ok : ∀ i ∈ hiString ++ hiChars, i.Ok := by
    intro i hi
    simp only [hiString, hiChars, List.mem_append, List.mem_cons, List.not_mem_nil, or_false] at hi
    rcases hi with rfl | rfl | rfl <;> rfl
  have text : ∀ body ∈ [hiString, hiChars],
      body.foldl (fun t i => LogStream.Op.apply t (.insert i)) sampleHeader =
        sampleHeader ++ ascii "hi" := by decide +kernel
  have made : ∀ body ∈ [hiString, hiChars], ∃ s,
      statement sampleSite sampleStatement (fun _ => 7) [] body = some s ∧
        sampleStatement.file.size + 36 ≤ s.buffer.avail ∧ destruct sampleStatement s [] [] =
          some ((trailer sampleStatement [] []).foldl
            (fun t i => LogStream.Op.apply t (.insert i)) (sampleHeader ++ ascii "hi")) := by
    intro body hbody
    have hok : ∀ i ∈ body, i.Ok := fun i hi => ok i (by
      simp only [List.mem_cons, List.not_mem_nil, or_false] at hbody
      rcases hbody with rfl | rfl
      · exact List.mem_append_left _ hi
      · exact List.mem_append_right _ hi)
    obtain ⟨s, hs, hholds⟩ := sample_statement hok
    rw [text body hbody] at hholds
    refine ⟨s, hs, ?_, ?_⟩
    · have hlen : (sampleHeader ++ ascii "hi").length = 40 := by decide
      have hsum : s.buffer.avail + s.buffer.length = 4000 := s.buffer.avail_add_length
      rw [← FixedBuffer.length_toString, hholds.text_eq, hlen] at hsum
      have hsize : sampleStatement.file.size = 4 := by decide
      omega
    · obtain ⟨s', hs', hholds'⟩ := hholds.insertAll fun i hi => (sample_trailer i hi).1
      rw [destruct, hs', Option.map_some, hholds'.text_eq]
  obtain ⟨s, hs, hroom, hr⟩ := made hiString (by simp)
  obtain ⟨s', hs', hroom', hr'⟩ := made hiChars (by simp)
  have h := record_tells sampleSite sampleSite sampleStatement sampleStatement hiString hiChars
    (sample_orderly ⟨86400000000⟩ (by decide) fun i hi => clean i (List.mem_append_left _ hi))
    (sample_orderly ⟨86400000000⟩ (by decide) fun i hi => clean i (List.mem_append_right _ hi))
    (fun _ => 7) (fun _ => 7) [] [] [] [] [] [] s s' hs hs' hroom hroom' _ hr hr'
  exact ⟨s, s', _, hs, hs', hr, hr', h.2.2.2.1 rfl, h.2.2.2.2.2.2⟩

/-! ## Records in order -/

theorem Timely.fits (h : Timely site) : Fits 6 site.time.microseconds :=
  LogTimes.microseconds_of_second h.second

/-- Texts with the heads of an earlier and a later time in UTC. -/
theorem lt_of_heads (ht : Timely site) (ht' : Timely site')
    (hutc : site.g_logTimeZone.valid = false) (hutc' : site'.g_logTimeZone.valid = false)
    {u u' : Int} (hu : localSecond site.g_logTimeZone site.time.seconds = some u)
    (hu' : localSecond site'.g_logTimeZone site'.time.seconds = some u')
    (hpre : head site st u <+: r) (hpre' : head site' st' u' <+: r')
    (hlt : site.time.lt site'.time = true) : r < r' := by
  obtain ⟨t, rfl⟩ := hpre
  obtain ⟨t', rfl⟩ := hpre'
  have hyear := ht.year u hu
  have hyear' := ht'.year u' hu'
  rw [localSecond_utc hutc, Option.some_inj] at hu
  rw [localSecond_utc hutc', Option.some_inj] at hu'
  simp only [head, microsecondText, List.append_assoc]
  rw [dateTimeText_append_lt_iff hyear hyear', literal_append_lt_iff,
    zeroField_append_lt_iff (by omega) ht.fits ht'.fits, ← hu, ← hu']
  rcases (Timestamp.lt_iff_parts ht.second ht'.second).mp hlt with hlt | ⟨e, hlt⟩
  · exact .inl hlt
  · exact .inr ⟨e, .inl hlt⟩

/-- **Records in UTC are sorted by time**, whatever they say otherwise and complete or not. -/
theorem records_sort (site site' : Site) (st st' : Statement) (body body' : List Insertion)
    (h : Orderly site st body) (h' : Orderly site' st' body')
    (hutc : site.g_logTimeZone.valid = false) (hutc' : site'.g_logTimeZone.valid = false)
    (leftover leftover' : Nat → UInt8) (after after1 after2 after' after1' after2' : List UInt8)
    (r r' : List UInt8) (hr : record site st leftover body after after1 after2 = some r)
    (hr' : record site' st' leftover' body' after' after1' after2' = some r')
    (hne : site.time ≠ site'.time) : r < r' ↔ site.time.lt site'.time = true := by
  obtain ⟨s, hs, hd⟩ := Option.bind_eq_some_iff.mp hr
  obtain ⟨s', hs', hd'⟩ := Option.bind_eq_some_iff.mp hr'
  obtain ⟨u, hu, hyear, hpre, -⟩ := h.statement hs
  obtain ⟨u', hu', hyear', hpre', -⟩ := h'.statement hs'
  replace hpre := hpre.trans (destruct_text h.file hd).1
  replace hpre' := hpre'.trans (destruct_text h'.file hd').1
  refine ⟨fun hlt => ?_, lt_of_heads h.timely h'.timely hutc hutc' hu hu' hpre hpre'⟩
  by_contra hn
  have hgt : site'.time.lt site.time = true := Timestamp.lt_of_not_lt hne hn
  exact absurd (lt_of_heads h'.timely h.timely hutc' hutc hu' hu hpre' hpre hgt)
    (List.lt_asymm hlt)

/-- The sample a microsecond later. -/
def laterSite : Site := { sampleSite with time := ⟨86400000001⟩ }

theorem records_sort_microsecond : ∃ r r',
    record sampleSite sampleStatement (fun _ => 7) hiString [] [] [] = some r ∧
    record laterSite sampleStatement (fun _ => 7) [] [] [] [] = some r' ∧ r < r' := by
  have hsome : (record laterSite sampleStatement (fun _ => 7) [] [] [] []).isSome = true := by
    decide +kernel
  obtain ⟨r', hr'⟩ := Option.isSome_iff_exists.mp hsome
  have hok : ∀ i ∈ hiString, i.Ok := fun i hi => by
    rw [List.mem_singleton.mp hi]
    rfl
  have hr := sample_record hok
  refine ⟨_, r', hr, hr', (records_sort sampleSite laterSite sampleStatement sampleStatement
    hiString [] (sample_orderly ⟨86400000000⟩ (by decide) fun i hi => ?_)
    (sample_orderly ⟨86400000001⟩ (by decide) nofun) rfl rfl (fun _ => 7) (fun _ => 7)
    [] [] [] [] [] [] _ r' hr hr' fun e => ?_).mpr rfl⟩
  · rw [List.mem_singleton.mp hi]
    exact cstring_clean _
  · exact absurd (congrArg Timestamp.microSecondsSinceEpoch e) (by decide)

end Logger

end MultiThreadLog
