import MultiThreadLog.LogFile.Basic

/-!
# What `AppendFile` counts

One `append` against every pattern of answers of `fwrite_unlocked`: short counts, with the error
flag of the stream or without, and a failure at any point. The loop stops, and the stream has a
prefix of the message, the bytes of the calls in order (`appendLoop_eq_calls`). `writenBytes_`
grows by the length of the message all the same, so it is the number of bytes in the file only as
long as no call fails (`accounts_iff`).
-/

namespace MultiThreadLog

open Bytes

namespace AppendFile

variable {f : AppendFile} {logline content : List UInt8} {len written : Nat}
  {rs : List FwriteResult}

/-- Answers to the loop from `written` on: one for every call up to the end of the loop, and none
with more than the call was given. -/
def Answered (len : Nat) : Nat → List FwriteResult → Prop
  | written, [] => written = len
  | written, r :: rs =>
    written = len ∨ r.accepted ≤ len - written ∧
      (r.accepted < len - written → r.error = false → Answered len (written + r.accepted) rs)

/-- No short count comes with the error flag. -/
def NoFailure (len : Nat) : Nat → List FwriteResult → Prop
  | _, [] => True
  | written, r :: rs =>
    written = len ∨ r.accepted = len - written ∨
      r.error = false ∧ NoFailure len (written + r.accepted) rs

/-- The calls that the loop from `written` on makes, by their answers. -/
def calls (len : Nat) : Nat → List FwriteResult → List FwriteResult
  | _, [] => []
  | written, r :: rs =>
    if written = len then []
    else if r.accepted ≠ len - written ∧ r.error then [r]
    else r :: calls len (written + r.accepted) rs

/-- The bytes the stream accepts in these calls. -/
def accepted (len written : Nat) (rs : List FwriteResult) : Nat :=
  ((calls len written rs).map FwriteResult.accepted).sum

theorem calls_done : calls len len rs = [] := by
  cases rs with
  | nil => rfl
  | cons r rs => rw [calls, if_pos rfl]

theorem accepted_done : accepted len len rs = 0 := by
  rw [accepted, calls_done]
  rfl

theorem accepted_cons (r : FwriteResult) (rs : List FwriteResult) :
    accepted len written (r :: rs) =
      if written = len then 0
      else if r.accepted ≠ len - written ∧ r.error then r.accepted
      else r.accepted + accepted len (written + r.accepted) rs := by
  rw [accepted, calls]
  split
  · rfl
  · split <;> simp [accepted]

theorem appendLoop_done : appendLoop logline len len content rs = some content := by
  cases rs with
  | nil => exact if_pos rfl
  | cons r rs => rw [appendLoop, if_pos rfl]

/-- **The loop** appends what its calls accept, in order. -/
theorem appendLoop_eq_calls (h : Answered len written rs) (hw : written ≤ len) :
    written + accepted len written rs ≤ len ∧
    appendLoop logline len written content rs =
      some (content ++ (logline.drop written).take (accepted len written rs)) := by
  induction rs generalizing written content with
  | nil =>
    cases h
    rw [appendLoop_done, accepted_done]
    simp
  | cons r rs ih =>
    rcases Nat.eq_or_lt_of_le hw with rfl | hlt
    · rw [appendLoop_done, accepted_done]
      simp
    have hne : written ≠ len := by omega
    obtain ⟨hle, hrest⟩ := h.resolve_left hne
    have hmin : min r.accepted (len - written) = r.accepted := Nat.min_eq_left hle
    rw [appendLoop, if_neg hne, accepted_cons, if_neg hne]
    simp only [hmin]
    by_cases hfail : r.accepted ≠ len - written ∧ r.error = true
    · -- a short count with the error flag ends the loop
      rw [if_pos hfail, if_pos hfail]
      exact ⟨by omega, rfl⟩
    rw [if_neg hfail, if_neg hfail, List.take_add, List.drop_drop, ← List.append_assoc,
      ← Nat.add_assoc]
    by_cases hfull : r.accepted = len - written
    · have hend : written + r.accepted = len := by omega
      rw [hend, accepted_done, appendLoop_done]
      simp
    · have hflag : r.error = false := by simpa [hfull] using hfail
      exact ih (hrest (by omega) hflag) (by omega)

/-- All of the message is accepted just when no call fails. -/
theorem accepted_eq_iff (h : Answered len written rs) (hw : written ≤ len) :
    written + accepted len written rs = len ↔ NoFailure len written rs := by
  induction rs generalizing written with
  | nil =>
    cases h
    simp [accepted_done, NoFailure]
  | cons r rs ih =>
    rcases Nat.eq_or_lt_of_le hw with rfl | hlt
    · simp [accepted_done, NoFailure]
    have hne : written ≠ len := by omega
    obtain ⟨hle, hrest⟩ := h.resolve_left hne
    rw [accepted_cons, if_neg hne, NoFailure]
    by_cases hfull : r.accepted = len - written
    · have hend : written + r.accepted = len := by omega
      rw [if_neg (fun hc => hc.1 hfull), hend, accepted_done]
      simp [hfull]
      omega
    cases hflag : r.error with
    | true =>
      rw [if_pos ⟨hfull, rfl⟩]
      simp [hfull, hne]
      omega
    | false =>
      rw [if_neg (by simp), ← Nat.add_assoc, ih (hrest (by omega) hflag) (by omega)]
      simp [hfull, hne]

/-- When every short count comes with the flag, the loop makes one call at most, and no call
fails just when that call takes the whole message. -/
theorem noFailure_iff_first
    (hflag : ∀ r, rs.head? = some r → r.accepted < len → r.error = true) (h : Answered len 0 rs) :
    NoFailure len 0 rs ↔ len = 0 ∨ ∃ r, rs.head? = some r ∧ r.accepted = len := by
  cases rs with
  | nil =>
    cases h
    simp [NoFailure]
  | cons r rs =>
    rcases Nat.eq_zero_or_pos len with rfl | hpos
    · simp [NoFailure]
    obtain ⟨hle, -⟩ := h.resolve_left (by omega)
    rw [NoFailure, Nat.sub_zero]
    by_cases hfull : r.accepted = len
    · simp [hfull]
    · have herror : r.error = true := hflag r rfl (by omega)
      simp [hfull, herror, hpos.ne']
      omega

theorem append_eq_calls (h : Answered logline.length 0 rs) :
    f.append logline logline.length rs = some { f with
      content := f.content ++ logline.take (accepted logline.length 0 rs)
      writenBytes := f.writenBytes + logline.length } := by
  rw [append, (appendLoop_eq_calls h (Nat.zero_le _)).2]
  rfl

/-- `append` stops, the stream gets a prefix of the message, the whole of it if no call fails, and
`writenBytes_` grows by the bytes accepted. -/
def Accounts (f : AppendFile) (logline : List UInt8) (rs : List FwriteResult) : Prop :=
  let n := accepted logline.length 0 rs
  ∃ f', f.append logline logline.length rs = some f' ∧ n ≤ logline.length ∧
    f'.content = f.content ++ logline.take n ∧
    (NoFailure logline.length 0 rs → n = logline.length) ∧
    f'.writenBytes = f.writenBytes + n

/-- **What `writenBytes_` counts**: the bytes in the file if and only if no call fails. -/
theorem accounts_iff (f : AppendFile) (logline : List UInt8) (rs : List FwriteResult)
    (h : Answered logline.length 0 rs) :
    Accounts f logline rs ↔ NoFailure logline.length 0 rs := by
  have hall := accepted_eq_iff h (Nat.zero_le _)
  rw [Nat.zero_add] at hall
  constructor
  · rintro ⟨f', hf', -, -, -, hcount⟩
    rw [append_eq_calls h, Option.some_inj] at hf'
    subst hf'
    exact hall.mp (by simp only at hcount; omega)
  · intro hno
    have hn := hall.mpr hno
    exact ⟨_, append_eq_calls h, by omega, rfl, fun _ => hn, by simp only [hn]⟩

/-- A short count without the flag, and the rest of the message. -/
theorem accounts_iff_twoCalls :
    Accounts (new (ascii "log") 1) (ascii "abc") [⟨1, false⟩, ⟨2, false⟩] ↔
      NoFailure (ascii "abc").length 0 [⟨1, false⟩, ⟨2, false⟩] :=
  accounts_iff _ _ _ (.inr ⟨by decide, fun _ _ => .inr ⟨by decide, fun h => absurd h (by decide)⟩⟩)

/-- The disk is full after one byte of three: the file has one byte more, the counter three. -/
theorem writenBytes_counts_refused :
    Answered (ascii "abc").length 0 [⟨1, true⟩] ∧
    (∃ f', (new (ascii "log") 1).append (ascii "abc") (ascii "abc").length [⟨1, true⟩] = some f' ∧
      f'.content = ascii "a" ∧ f'.writenBytes = 3) ∧
    ¬ Accounts (new (ascii "log") 1) (ascii "abc") [⟨1, true⟩] := by
  refine ⟨.inr ⟨by decide, nofun⟩, ⟨_, rfl, rfl, rfl⟩, ?_⟩
  rintro ⟨f', hf', -, -, -, hcount⟩
  cases hf'
  exact absurd hcount (by decide)

end AppendFile

end MultiThreadLog
