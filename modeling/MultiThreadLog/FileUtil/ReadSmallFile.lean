import Mathlib.Algebra.Group.Int.Defs
import MultiThreadLog.Lib.Bytes
import MultiThreadLog.Lib.CInt

/-!
# `ReadSmallFile`

`ReadSmallFile` (`FileUtil.cc`) opens a file and reads the beginning of it into a string. The
kernel decides how many bytes each `read` delivers, and may fail; its decisions are an argument,
one for each call. `readToString` terminates whatever they are, and what it returns does not depend
on where the chunks end (`readToString_eq`).
-/

namespace MultiThreadLog

open Bytes CInt

/-! ## The calls of the kernel -/

/-- What the kernel does at a call of `read`. -/
inductive ReadChoice where
  | upTo (n : Nat)
  | fail (errno : Int)

/-- What a call of `read` gives; no bytes at the end of the file. -/
inductive ReadResult where
  | bytes (chunk : List UInt8)
  | fail (errno : Int)

def ReadResult.chunk : ReadResult → List UInt8
  | .bytes chunk => chunk
  | .fail _ => []

/-- `read(fd, buf, toRead)` at an offset: at least one byte before the end of the file, and at
most `toRead`. -/
def read (file : List UInt8) (offset toRead : Nat) : ReadChoice → ReadResult
  | .upTo n => .bytes ((file.drop offset).take (min (max n 1) toRead))
  | .fail errno => .fail errno

inductive FileType where
  | reg
  | dir
  | other
  deriving DecidableEq

/-- What `fstat` tells. -/
structure Stat where
  mode : FileType
  size : Int
  mtime : Int
  ctime : Int

def EISDIR : Int := 21

/-! ## The code -/

/-- `fd_`, `err_` and the offset of the open file. -/
structure ReadSmallFile where
  fd : Int
  err : Int
  offset : Nat

namespace ReadSmallFile

def kBufferSize : Nat := 64 * 1024

/-- The constructor: `open` gives a descriptor, or a negative number and `errno`. -/
def new (fd errno : Int) : ReadSmallFile := ⟨fd, if fd < 0 then errno else 0, 0⟩

section Loop

variable (file : List UInt8) (choices : Nat → ReadChoice) (maxSize : Nat)

/-- The loop from call `i` on: the offset, the string and the error afterwards. -/
def readLoop (i offset : Nat) (content : List UInt8) (err : Int) : Nat × List UInt8 × Int :=
  if content.length < maxSize then
    match read file offset (min (maxSize - content.length) kBufferSize) (choices i) with
    | .bytes [] => (offset, content, err)
    | .bytes (b :: chunk) =>
      readLoop (i + 1) (offset + (b :: chunk).length) (content ++ b :: chunk) err
    | .fail errno => (offset, content, errno)
  else (offset, content, err)
termination_by maxSize - content.length
decreasing_by
  simp only [List.length_append, List.length_cons]
  omega

/-- The results of the calls that the loop makes. -/
def results (i offset : Nat) (content : List UInt8) : List ReadResult :=
  if content.length < maxSize then
    let r := read file offset (min (maxSize - content.length) kBufferSize) (choices i)
    r :: match r with
      | .bytes (b :: chunk) =>
        results (i + 1) (offset + (b :: chunk).length) (content ++ b :: chunk)
      | _ => []
  else []
termination_by maxSize - content.length
decreasing_by
  simp only [List.length_append, List.length_cons]
  omega

end Loop

/-- What `readToString` leaves behind. -/
structure Outcome where
  self : ReadSmallFile
  content : List UInt8
  fileSize : Option Int
  modifyTime : Option Int
  createTime : Option Int
  err : Int

/-- `static_cast<size_t>`. -/
def toSize (n : Int32) : Nat := (n.toInt % 2 ^ 64).toNat

/-- The part with `fstat`, which is left out when `fileSize` is null: the error so far and the
variables behind the pointers. A negative size to reserve is far too large as a `size_t`, and
`reserve` throws. -/
def statFile (answer : Except Int Stat) (maxSize : Int32) (err : Int)
    (fileSize modifyTime createTime : Option Int) :
    Option (Int × Option Int × Option Int × Option Int) :=
  if fileSize.isSome then
    match answer with
    | .ok statbuf =>
      let modifyTime := modifyTime.map fun _ => statbuf.mtime
      let createTime := createTime.map fun _ => statbuf.ctime
      match statbuf.mode with
      | .reg =>
        if ofLong (min maxSize.toInt statbuf.size) < 0 then none
        else some (err, some statbuf.size, modifyTime, createTime)
      | .dir => some (EISDIR, fileSize, modifyTime, createTime)
      | .other => some (err, fileSize, modifyTime, createTime)
    | .error errno => some (errno, fileSize, modifyTime, createTime)
  else some (err, fileSize, modifyTime, createTime)

/-- `readToString`; a pointer argument is `none` when it is null, else what it points to. -/
def readToString (self : ReadSmallFile) (file : List UInt8) (choices : Nat → ReadChoice)
    (answer : Except Int Stat) (maxSize : Int32) (content : List UInt8)
    (fileSize modifyTime createTime : Option Int) : Option Outcome :=
  let err := self.err
  if self.fd < 0 then some ⟨self, content, fileSize, modifyTime, createTime, err⟩
  else
    (statFile answer maxSize err fileSize modifyTime createTime).map
      fun (err, fileSize, modifyTime, createTime) =>
        let (offset, content, err) := readLoop file choices (toSize maxSize) 0 self.offset [] err
        ⟨{ self with offset }, content, fileSize, modifyTime, createTime, err⟩

/-! ## What is read -/

variable {file content chunk : List UInt8} {c : ReadChoice} {offset toRead : Nat}

/-- What a read that does not fail delivers: a piece of the file, no more than was asked for, and
nothing only at the end of the file. -/
theorem read_bytes (h : read file offset toRead c = .bytes chunk) (hpos : 0 < toRead) :
    chunk <+: file.drop offset ∧ chunk.length ≤ toRead ∧ (chunk = [] → file.length ≤ offset) := by
  cases c with
  | upTo n =>
    cases h
    refine ⟨List.take_prefix _ _, Nat.le_trans (List.length_take_le _ _) (Nat.min_le_right _ _),
      fun hnil => ?_⟩
    rcases List.take_eq_nil_iff.mp hnil with h0 | h0
    · omega
    · exact List.drop_eq_nil_iff.mp h0
  | fail errno => cases h

/-- A piece of the file behind a beginning of the file. -/
theorem append_isPrefix (hpre : content <+: file) (hchunk : chunk <+: file.drop content.length) :
    content ++ chunk <+: file := by
  obtain ⟨rest, rfl⟩ := hpre
  rw [List.drop_left] at hchunk
  exact (List.prefix_append_right_inj content).mpr hchunk

/-- **The loop** from a point where it has read a beginning of the file. -/
theorem readLoop_eq (choices : Nat → ReadChoice) (maxSize : Nat) (hpre : content <+: file)
    (hoffset : offset = content.length) (hle : content.length ≤ maxSize) (i : Nat) (err : Int) :
    (readLoop file choices maxSize i offset content err).2.1 =
      content ++ (results file choices maxSize i offset content).flatMap ReadResult.chunk ∧
    ((∀ e, .fail e ∉ results file choices maxSize i offset content) →
      (readLoop file choices maxSize i offset content err).2.1 = file.take maxSize ∧
      (readLoop file choices maxSize i offset content err).2.2 = err) ∧
    ∀ e, .fail e ∈ results file choices maxSize i offset content →
      (readLoop file choices maxSize i offset content err).2.2 = e := by
  induction hn : maxSize - content.length using Nat.strongRecOn generalizing i offset content with
  | ind n ih =>
    subst hn
    rw [readLoop, results]
    by_cases hlt : content.length < maxSize
    · rw [if_pos hlt, if_pos hlt]
      have hpos : 0 < min (maxSize - content.length) kBufferSize := by
        simp only [kBufferSize]
        omega
      cases hread : read file offset (min (maxSize - content.length) kBufferSize) (choices i) with
      | fail errno =>
        refine ⟨by simp [ReadResult.chunk], fun h => absurd List.mem_cons_self (h errno), ?_⟩
        intro e he
        cases List.mem_singleton.mp he
        rfl
      | bytes chunk =>
        obtain ⟨hchunk, hshort, hend⟩ := read_bytes hread hpos
        cases chunk with
        | nil =>
          -- the end of the file comes before the limit
          have hlen := hend rfl
          have hall : content = file := hpre.eq_of_length_le (by omega)
          refine ⟨by simp [ReadResult.chunk], fun _ => ⟨?_, rfl⟩, fun e he => ?_⟩
          · rw [hall, List.take_of_length_le (by omega)]
          · cases List.mem_singleton.mp he
        | cons b chunk =>
          rw [hoffset] at hchunk
          have hlen : (content ++ b :: chunk).length = content.length + (b :: chunk).length :=
            List.length_append
          have hnext : offset + (b :: chunk).length = (content ++ b :: chunk).length := by
            rw [hlen, hoffset]
          obtain ⟨h1, h2, h3⟩ := ih _ (by simp only [List.length_cons] at hlen; omega)
            (append_isPrefix hpre hchunk) hnext (by omega) (i + 1) rfl
          refine ⟨?_, fun h => h2 fun e he => h e (List.mem_cons_of_mem _ he), fun e he => ?_⟩
          · rw [h1, List.append_assoc]
            rfl
          · rcases List.mem_cons.mp he with he | he
            · cases he
            · exact h3 e he
    · have hlen : content.length = maxSize := by omega
      rw [if_neg hlt, if_neg hlt]
      exact ⟨by simp, fun _ => ⟨by rw [← hlen]; exact List.prefix_iff_eq_take.mp hpre, rfl⟩, nofun⟩

theorem toSize_of_nonneg {n : Int32} (h : 0 ≤ n.toInt) : toSize n = n.toInt.toNat := by
  have hlt := n.toInt_lt
  rw [toSize, Int.emod_eq_of_lt h (by omega)]

/-- On a regular file `fstat` leaves the error as it is. -/
theorem statFile_reg {statbuf : Stat} {maxSize : Int32} (hmax : 0 ≤ maxSize.toInt)
    (hreg : statbuf.mode = .reg) (hsize : 0 ≤ statbuf.size) (err : Int)
    (fileSize modifyTime createTime : Option Int) :
    ∃ outs, statFile (.ok statbuf) maxSize err fileSize modifyTime createTime =
      some (err, outs) := by
  unfold statFile
  split
  · have hlt := maxSize.toInt_lt
    have hreserve : ¬ ofLong (min maxSize.toInt statbuf.size) < 0 := by
      rw [ofLong_eq (by omega) (by omega)]
      omega
    simp only [hreg, if_neg hreserve]
    exact ⟨_, rfl⟩
  · exact ⟨_, rfl⟩

/-- **What `readToString` reads** of a file just opened. On a regular file, with a limit that is
not negative, the string becomes the beginning of the file up to the limit, whatever it was; if a
read fails, it becomes the bytes read before, and the error is returned. If the file could not be
opened, the string stays. -/
theorem readToString_eq (fd errno : Int) (file : List UInt8) (choices : Nat → ReadChoice)
    (maxSize : Int32) (content : List UInt8) (fileSize modifyTime createTime : Option Int) :
    (fd < 0 → ∀ answer, (new fd errno).readToString file choices answer maxSize content fileSize
        modifyTime createTime =
      some ⟨new fd errno, content, fileSize, modifyTime, createTime, errno⟩) ∧
    (0 ≤ fd → 0 ≤ maxSize.toInt → ∀ statbuf : Stat, statbuf.mode = .reg → 0 ≤ statbuf.size →
      ∃ r, (new fd errno).readToString file choices (.ok statbuf) maxSize content fileSize
          modifyTime createTime = some r ∧
        ((∀ e, .fail e ∉ results file choices maxSize.toInt.toNat 0 0 []) →
          r.content = file.take maxSize.toInt.toNat ∧ r.err = 0) ∧
        ∀ e, .fail e ∈ results file choices maxSize.toInt.toNat 0 0 [] →
          r.content =
            (results file choices maxSize.toInt.toNat 0 0 []).flatMap ReadResult.chunk ∧
          r.err = e) := by
  constructor
  · intro hfd answer
    have herr : (new fd errno).err = errno := if_pos hfd
    unfold readToString
    simp only [herr]
    exact if_pos hfd
  · intro hfd hmax statbuf hreg hsize
    obtain ⟨outs, houts⟩ := statFile_reg hmax hreg hsize 0 fileSize modifyTime createTime
    obtain ⟨hcontent, hall, hfail⟩ := readLoop_eq choices (toSize maxSize)
      (List.nil_prefix (l := file)) rfl (Nat.zero_le _) 0 0
    rw [toSize_of_nonneg hmax] at hcontent hall hfail
    have herr : (new fd errno).err = 0 := if_neg (by omega)
    have hopen : ¬ (new fd errno).fd < 0 := Int.not_lt.mpr hfd
    unfold readToString
    simp only [herr]
    rw [if_neg hopen, houts, Option.map_some, toSize_of_nonneg hmax]
    exact ⟨_, rfl, hall, fun e he => ⟨hcontent, hfail e he⟩⟩

/-- The limit falls inside the second read of two bytes. -/
theorem readToString_eq_twoReads :
    ∃ r, (new 3 0).readToString (ascii "abcd") (fun _ => .upTo 2) (.ok ⟨.reg, 4, 0, 0⟩) 3
        (ascii "before") (some 0) none none = some r ∧ r.content = ascii "abc" ∧ r.err = 0 := by
  obtain ⟨r, hr, hall, -⟩ := (readToString_eq 3 0 (ascii "abcd") (fun _ => .upTo 2) 3
    (ascii "before") (some 0) none none).2 (by decide) (by decide) ⟨.reg, 4, 0, 0⟩ rfl (by decide)
  have hok : ∀ e, .fail e ∉
      results (ascii "abcd") (fun _ => .upTo 2) (3 : Int32).toInt.toNat 0 0 [] := by
    simp [results, read, ascii, kBufferSize]
  exact ⟨r, hr, hall hok⟩

end ReadSmallFile

end MultiThreadLog
