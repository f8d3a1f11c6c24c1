import MultiThreadLog.Lib.Reader
import MultiThreadLog.Time.TimeZone

/-!
# Reading a zone file

`readTimeZoneFile` of `TimeZone.cc` over the bytes of a file. Its reads throw `std::logic_error` at
the end of the file; the exception is caught, the `Data` keeps what it has got, and the function
returns `true` in every case. An array of negative size or of more than the `stack` bytes that are
left of the stack and an index outside a vector are undefined behaviour; the heap is taken to
suffice for the vectors.

`Block` is a TZif version-1 block, laid out by `encode`. Reading it back gives its `table` exactly
if the abbreviations fit the stack (`zoneFile_recovered_iff`), and only files that begin with a
block are read without an exception (`Block.readZone_inv`).
-/

namespace MultiThreadLog

open Bytes Reader

namespace File

variable {δ : Type}

/-- `char buf[n]`, on the stack, and `fread`. -/
def readBytes (stack : Nat) (n : Int) : Reader δ (List UInt8) := do
  if n < 0 ∨ stack < n then undefined
  else
    let buf ← fread n.toNat
    if buf.length = n.toNat then return buf else throw "no enough data"

def readInt32 : Reader δ Int32 := do
  let x ← fread 4
  if x.length = 4 then return (ofBe x).toUInt32.toInt32 else throw "bad int32_t data"

def readUInt8 : Reader δ UInt8 := do
  match ← fread 1 with
  | [x] => return x
  | _ => throw "bad uint8_t data"

end File

open File

/-- `trans.reserve(n)`, whose argument is converted to `size_t`. -/
def reserve {δ : Type} (n : Int) : Reader δ Unit :=
  if n < 0 then throw "vector::reserve" else return ()

/-- One round of the loop over the types. -/
def readLocaltime : Reader TimeZone.Data (Int32 × UInt8 × UInt8) := do
  let gmtoff ← readInt32
  let isdst ← readUInt8
  let abbrind ← readUInt8
  modifyData fun data =>
    { data with localtimes := data.localtimes ++ [⟨gmtoff.toInt, isdst ≠ 0, abbrind.toNat⟩] }
  return (gmtoff, isdst, abbrind)

/-- One round of the last loop. -/
def addTransition (instant : Int32) (localIdx : UInt8) : Reader TimeZone.Data Unit := do
  let data ← getData
  match data.localtimes[localIdx.toNat]? with
  | some loc =>
    let localtime := instant.toInt + loc.gmtOffset
    modifyData fun data => { data with
      transitions := data.transitions ++ [⟨instant.toInt, localtime, localIdx.toNat⟩] }
  | none => undefined

/-- The loop that adds the transitions. -/
def addTransitions : List (Int32 × UInt8) → Reader TimeZone.Data Unit
  | [] => return ()
  | (instant, localIdx) :: rest => do
    addTransition instant localIdx
    addTransitions rest

/-- The counts of the header that steer the loops. -/
structure Counts where
  timecnt : Int32
  typecnt : Int32
  charcnt : Int32

/-- The body of the `try` block up to the counts. -/
def readHeader (stack : Nat) : Reader TimeZone.Data Counts := do
  let head ← readBytes stack 4
  if head ≠ ascii "TZif" then throw "bad head"
  else
    let _version ← readBytes stack 1
    let _reserved ← readBytes stack 15
    let _isgmtcnt ← readInt32
    let _isstdcnt ← readInt32
    let _leapcnt ← readInt32
    let timecnt ← readInt32
    let typecnt ← readInt32
    let charcnt ← readInt32
    return ⟨timecnt, typecnt, charcnt⟩

/-- The loops of the `try` block. -/
def readTables (timecnt typecnt : Int32) : Reader TimeZone.Data Unit := do
  reserve timecnt.toInt
  let trans ← times timecnt.toInt.toNat readInt32
  let localtimes ← times timecnt.toInt.toNat readUInt8
  let _types ← times typecnt.toInt.toNat readLocaltime
  addTransitions (trans.zip localtimes)

/-- The body of the `try` block. -/
def readZone (stack : Nat) : Reader TimeZone.Data Unit := do
  let cnt ← readHeader stack
  readTables cnt.timecnt cnt.typecnt
  let abbreviation ← readBytes stack cnt.charcnt.toInt
  modifyData fun data => { data with abbreviation := abbreviation }

/-- `zonefile` is the content of the file, if it can be opened. -/
def readTimeZoneFile (stack : Nat) (zonefile : Option (List UInt8)) (data : TimeZone.Data) :
    Option (Bool × TimeZone.Data) :=
  match zonefile with
  | some content => ((readZone stack).run.run ⟨content, data⟩).map fun (_, s) => (true, s.data)
  | none => some (true, data)

namespace TimeZone

def Data.empty : Data := ⟨[], [], []⟩

/-- `TimeZone(zonefile)`. -/
def ofFile (stack : Nat) (zonefile : Option (List UInt8)) : Option TimeZone :=
  (readTimeZoneFile stack zonefile Data.empty).map fun (ok, data) =>
    ⟨if ok then some data else .none⟩

end TimeZone

/-! ## What the reads accept -/

variable {δ : Type} {s t : Reader.State δ} {stack : Nat}

theorem runs_readBytes {n : Int} {b : List UInt8} : Runs (readBytes stack n) s b t ↔
    (0 ≤ n ∧ n ≤ stack) ∧ b.length = n.toNat ∧ s.input = b ++ t.input ∧ t.data = s.data := by
  unfold readBytes
  split
  · rename_i hn
    exact ⟨fun h => (runs_undefined h).elim, fun h => by omega⟩
  · rename_i hn
    rw [← fread_full, and_iff_right (by omega : 0 ≤ n ∧ n ≤ stack)]
    simp only [runs_bind, runs_fread]
    constructor
    · rintro ⟨buf, u, hu, h⟩
      split at h
      · rename_i hlen
        obtain ⟨rfl, rfl⟩ := runs_pure.mp h
        exact ⟨hu, hlen⟩
      · exact (runs_throw h).elim
    · rintro ⟨hu, hlen⟩
      exact ⟨b, t, hu, by rw [if_pos hlen]; exact runs_pure.mpr ⟨rfl, rfl⟩⟩

theorem runs_string {bytes rest : List UInt8} {n : Int} {d : δ} (h : n = bytes.length)
    (hn : n ≤ stack) : Runs (readBytes stack n) ⟨bytes ++ rest, d⟩ bytes ⟨rest, d⟩ :=
  runs_readBytes.mpr ⟨⟨by omega, hn⟩, by omega, rfl, rfl⟩

theorem stuck_readBytes {n : Int} (h : stack < n) :
    Stuck (readBytes stack n : Reader δ (List UInt8)) s := by
  unfold readBytes
  rw [if_pos (Or.inr h)]
  exact stuck_undefined

theorem reads_readInt32 :
    Reads (readInt32 : Reader δ Int32) (fun x => be32 x.toUInt32) fun _ d => d := by
  intro s x t
  unfold readInt32
  simp only [runs_bind, runs_fread]
  constructor
  · rintro ⟨bytes, u, hu, h⟩
    split at h
    · rename_i hlen
      obtain ⟨rfl, rfl⟩ := runs_pure.mp h
      obtain ⟨-, hs, hd⟩ := fread_full.mp ⟨hu, hlen⟩
      refine ⟨?_, hd⟩
      show s.input = be32 (ofBe bytes).toUInt32 ++ t.input
      rw [be32_ofBe hlen, hs]
    · exact (runs_throw h).elim
  · rintro ⟨hs, hd⟩
    obtain ⟨hu, hlen⟩ := fread_full.mpr ⟨length_be32 x.toUInt32, hs, hd⟩
    refine ⟨_, t, hu, ?_⟩
    rw [if_pos hlen, ofBe_be32]
    exact runs_pure.mpr ⟨rfl, rfl⟩

theorem reads_readUInt8 : Reads (readUInt8 : Reader δ UInt8) (fun x => [x]) fun _ d => d := by
  intro s x t
  unfold readUInt8
  simp only [runs_bind, runs_fread]
  constructor
  · rintro ⟨bytes, u, hu, h⟩
    split at h
    · obtain ⟨rfl, rfl⟩ := runs_pure.mp h
      obtain ⟨-, hs, hd⟩ := fread_full.mp ⟨hu, rfl⟩
      exact ⟨hs, hd⟩
    · exact (runs_throw h).elim
  · rintro ⟨hs, hd⟩
    obtain ⟨hu, -⟩ := fread_full.mpr ⟨show [x].length = 1 from rfl, hs, hd⟩
    exact ⟨[x], t, hu, runs_pure.mpr ⟨rfl, rfl⟩⟩

theorem runs_reserve {n : Int} {x : Unit} : Runs (reserve n) s x t ↔ 0 ≤ n ∧ t = s := by
  unfold reserve
  split
  · exact ⟨fun h => (runs_throw h).elim, fun h => by omega⟩
  · rw [runs_pure, and_iff_right (by omega : 0 ≤ n)]
    exact ⟨And.right, fun h => ⟨rfl, h⟩⟩

def encodeType (x : Int32 × UInt8 × UInt8) : List UInt8 := be32 x.1.toUInt32 ++ [x.2.1, x.2.2]

/-- The type that the reading code adds. -/
def toLocaltime (x : Int32 × UInt8 × UInt8) : Localtime := ⟨x.1.toInt, x.2.1 ≠ 0, x.2.2.toNat⟩

theorem reads_readLocaltime : Reads readLocaltime encodeType fun x data =>
    { data with localtimes := data.localtimes ++ [toLocaltime x] } := by
  rintro s ⟨x, isdst, abbrind⟩ t
  unfold readLocaltime
  simp only [runs_bind, runs_pure, runs_modifyData, Prod.mk.injEq]
  constructor
  · rintro ⟨_, u, h1, _, v, h2, _, w, h3, _, _, rfl, ⟨rfl, rfl, rfl⟩, rfl⟩
    obtain ⟨hs, hd⟩ := reads_readInt32.accepted h1
    obtain ⟨hu, hud⟩ := reads_readUInt8.accepted h2
    obtain ⟨hv, hvd⟩ := reads_readUInt8.accepted h3
    refine ⟨by rw [hs, hu, hv]; rfl, ?_⟩
    have hw : w.data = s.data := by rw [hvd, hud, hd]
    simp only [hw]
    rfl
  · rintro ⟨hs, hd⟩
    refine ⟨x, ⟨isdst :: abbrind :: t.input, s.data⟩, (reads_readInt32 _ _ _).mpr ⟨hs, rfl⟩,
      isdst, _, reads_readUInt8.run isdst (abbrind :: t.input) s.data,
      abbrind, _, reads_readUInt8.run abbrind t.input s.data, (), t, ?_, ⟨rfl, rfl, rfl⟩, rfl⟩
    obtain ⟨input, data⟩ := t
    rw [show data = _ from hd]
    rfl

/-- The transition that the last loop adds, the types being read. -/
def toTransition (localtimes : List Localtime) (x : Int32 × UInt8) : Transition :=
  ⟨x.1.toInt, x.1.toInt + ((localtimes[x.2.toNat]?).map Localtime.gmtOffset).getD 0, x.2.toNat⟩

theorem runs_addTransition {s t : Reader.State TimeZone.Data} {x : Int32 × UInt8} {r : Unit} :
    Runs (addTransition x.1 x.2) s r t ↔ x.2.toNat < s.data.localtimes.length ∧
      t = ⟨s.input, { s.data with
        transitions := s.data.transitions ++ [toTransition s.data.localtimes x] }⟩ := by
  unfold addTransition
  simp only [runs_bind, runs_getData]
  constructor
  · rintro ⟨d, u, ⟨rfl, rfl⟩, h⟩
    split at h
    · rename_i loc hloc
      refine ⟨(List.getElem?_eq_some_iff.mp hloc).1, ?_⟩
      rw [runs_modifyData.mp h, toTransition, hloc]
      rfl
    · exact (runs_undefined h).elim
  · rintro ⟨hlt, rfl⟩
    have hloc : s.data.localtimes[x.2.toNat]? = some s.data.localtimes[x.2.toNat] :=
      List.getElem?_eq_getElem hlt
    refine ⟨s.data, s, ⟨rfl, rfl⟩, ?_⟩
    rw [hloc]
    simp only [runs_modifyData, toTransition, hloc]
    rfl

theorem runs_addTransitions {s t : Reader.State TimeZone.Data} {l : List (Int32 × UInt8)}
    {r : Unit} :
    Runs (addTransitions l) s r t ↔ (∀ x ∈ l, x.2.toNat < s.data.localtimes.length) ∧
      t = ⟨s.input, { s.data with
        transitions := s.data.transitions ++ l.map (toTransition s.data.localtimes) }⟩ := by
  induction l generalizing s with
  | nil =>
    rw [addTransitions, runs_pure]
    simp
  | cons x l ih =>
    rw [addTransitions]
    simp only [runs_bind]
    constructor
    · rintro ⟨_, u, hx, hl⟩
      obtain ⟨hlt, rfl⟩ := runs_addTransition.mp hx
      obtain ⟨hall, rfl⟩ := ih.mp hl
      refine ⟨List.forall_mem_cons.mpr ⟨hlt, hall⟩, ?_⟩
      simp only [List.append_assoc, List.map_cons, List.singleton_append]
    · rintro ⟨hall, rfl⟩
      obtain ⟨hlt, hall⟩ := List.forall_mem_cons.mp hall
      refine ⟨(), _, runs_addTransition.mpr ⟨hlt, rfl⟩, ih.mpr ⟨hall, ?_⟩⟩
      simp only [List.append_assoc, List.map_cons, List.singleton_append]

/-! ## Blocks -/

/-- What a TZif version-1 block says. The first three counts mean nothing to the code. -/
structure Block where
  version : UInt8
  reserved : List UInt8
  isgmtcnt : Int32
  isstdcnt : Int32
  leapcnt : Int32
  instants : List (Int32 × UInt8)
  types : List (Int32 × UInt8 × UInt8)
  abbreviation : List UInt8
  reserved_length : reserved.length = 15
  instants_length : instants.length < 2 ^ 31
  types_length : types.length < 2 ^ 31
  abbreviation_length : abbreviation.length < 2 ^ 31
  index_lt : ∀ x ∈ instants, x.2.toNat < types.length

namespace Block

def count (n : Nat) : List UInt8 := be32 (Int32.ofNat n).toUInt32

/-- The bytes of the block. -/
def encode (z : Block) : List UInt8 :=
  ascii "TZif" ++ [z.version] ++ z.reserved ++ be32 z.isgmtcnt.toUInt32 ++
    be32 z.isstdcnt.toUInt32 ++ be32 z.leapcnt.toUInt32 ++ count z.instants.length ++
    count z.types.length ++ count z.abbreviation.length ++
    z.instants.flatMap (fun x => be32 x.1.toUInt32) ++ z.instants.map Prod.snd ++
    z.types.flatMap encodeType ++ z.abbreviation

/-- The table of the block. -/
def table (z : Block) : TimeZone.Data where
  transitions := z.instants.map (toTransition (z.types.map toLocaltime))
  localtimes := z.types.map toLocaltime
  abbreviation := z.abbreviation

theorem toInt_count {n : Nat} (h : n < 2 ^ 31) : (Int32.ofNat n).toInt = n := by
  have hsize : Int32.size = 2 ^ 32 := rfl
  rw [Int32.toInt_ofNat', hsize, Int.bmod_eq_of_le (by omega) (by omega)]

theorem foldl_localtimes (types : List (Int32 × UInt8 × UInt8)) (data : TimeZone.Data) :
    types.foldl (fun d x => { d with localtimes := d.localtimes ++ [toLocaltime x] }) data =
      { data with localtimes := data.localtimes ++ types.map toLocaltime } := by
  induction types generalizing data with
  | nil => simp
  | cons x types ih =>
    rw [List.foldl_cons, ih]
    simp

theorem foldl_id {α : Type} (l : List α) (d : δ) : l.foldl (fun d _ => d) d = d := by
  induction l with
  | nil => rfl
  | cons x l ih => exact ih

/-! ### The parts of a block -/

def counts (z : Block) : Counts where
  timecnt := Int32.ofNat z.instants.length
  typecnt := Int32.ofNat z.types.length
  charcnt := Int32.ofNat z.abbreviation.length

def tables (z : Block) : List UInt8 :=
  z.instants.flatMap (fun x => be32 x.1.toUInt32) ++ z.instants.map Prod.snd ++
    z.types.flatMap encodeType

theorem runs_header (z : Block) (rest : List UInt8) (d : TimeZone.Data) (hstack : 15 ≤ stack) :
    Runs (readHeader stack) ⟨z.encode ++ rest, d⟩ z.counts
      ⟨z.tables ++ (z.abbreviation ++ rest), d⟩ := by
  simp only [encode, count, List.append_assoc]
  unfold readHeader
  simp only [runs_bind]
  refine ⟨_, _, runs_string rfl (by omega), ?_⟩
  rw [if_neg (by simp)]
  simp only [runs_bind]
  refine ⟨_, _, runs_string rfl (by omega), _, _, runs_string (by rw [z.reserved_length]; rfl)
      (by omega), _, _, reads_readInt32.run _ _ _, _, _, reads_readInt32.run _ _ _,
    _, _, reads_readInt32.run _ _ _, _, _, reads_readInt32.run _ _ _,
    _, _, reads_readInt32.run _ _ _, _, _, reads_readInt32.run _ _ _, runs_pure.mpr ⟨rfl, ?_⟩⟩
  simp only [tables, List.append_assoc]

theorem runs_tables (z : Block) (rest : List UInt8) :
    Runs (readTables z.counts.timecnt z.counts.typecnt) ⟨z.tables ++ rest, TimeZone.Data.empty⟩ ()
      ⟨rest, { z.table with abbreviation := [] }⟩ := by
  have hinstants := toInt_count z.instants_length
  have htypes := toInt_count z.types_length
  simp only [tables, counts, List.append_assoc]
  unfold readTables
  simp only [runs_bind]
  refine ⟨(), _, runs_reserve.mpr ⟨by omega, rfl⟩,
    z.instants.map Prod.fst, ⟨z.instants.map Prod.snd ++ (z.types.flatMap encodeType ++ rest),
      TimeZone.Data.empty⟩, reads_readInt32.times.mpr ⟨?_, ?_, ?_⟩,
    z.instants.map Prod.snd, ⟨z.types.flatMap encodeType ++ rest, TimeZone.Data.empty⟩,
      reads_readUInt8.times.mpr ⟨?_, ?_, ?_⟩,
    z.types, ⟨rest, { TimeZone.Data.empty with localtimes := z.types.map toLocaltime }⟩,
      reads_readLocaltime.times.mpr ⟨?_, rfl, ?_⟩, runs_addTransitions.mpr ⟨?_, ?_⟩⟩
  · rw [List.length_map, hinstants, Int.toNat_natCast]
  · rw [List.flatMap_map]
  · exact (foldl_id _ _).symm
  · rw [List.length_map, hinstants, Int.toNat_natCast]
  · rw [List.flatMap_singleton']
  · exact (foldl_id _ _).symm
  · rw [htypes, Int.toNat_natCast]
  · rw [foldl_localtimes]
    rfl
  · intro x hx
    rw [List.zip_map', List.mem_map] at hx
    obtain ⟨x, hx, rfl⟩ := hx
    simpa using z.index_lt x hx
  · rw [List.zip_map']
    simp [table, TimeZone.Data.empty]

/-- **A block is read back**, whatever follows it, if its strings fit the stack. -/
theorem readZone_encode (z : Block) (rest : List UInt8) (hstack : 15 ≤ stack)
    (hfit : z.abbreviation.length ≤ stack) :
    Runs (readZone stack) ⟨z.encode ++ rest, TimeZone.Data.empty⟩ () ⟨rest, z.table⟩ := by
  have habbr : z.counts.charcnt.toInt = _ := toInt_count z.abbreviation_length
  unfold readZone
  simp only [runs_bind]
  exact ⟨_, _, z.runs_header rest _ hstack, (), _, z.runs_tables _, _, _,
    runs_string habbr (by omega), runs_modifyData.mpr rfl⟩

/-- Otherwise one of the arrays overruns the stack. -/
theorem readZone_stuck (z : Block) (rest : List UInt8)
    (h : ¬ (15 ≤ stack ∧ z.abbreviation.length ≤ stack)) :
    Stuck (readZone stack) ⟨z.encode ++ rest, TimeZone.Data.empty⟩ := by
  unfold readZone
  by_cases hstack : 15 ≤ stack
  · have habbr : z.counts.charcnt.toInt = _ := toInt_count z.abbreviation_length
    exact (z.runs_header rest _ hstack).stuck_bind
      ((z.runs_tables _).stuck_bind (stuck_readBytes (by omega)).bind)
  -- the stack has no room for the bytes of the header
  refine Stuck.bind ?_
  simp only [encode, List.append_assoc]
  unfold readHeader
  by_cases hhead : 4 ≤ stack
  · refine Runs.stuck_bind (runs_string rfl (by omega)) ?_
    rw [if_neg (by simp)]
    exact Runs.stuck_bind (runs_string rfl (by omega)) (stuck_readBytes (by omega)).bind
  · exact (stuck_readBytes (by omega)).bind

theorem readTimeZoneFile_encode (z : Block) (rest : List UInt8) (hstack : 15 ≤ stack)
    (hfit : z.abbreviation.length ≤ stack) :
    readTimeZoneFile stack (some (z.encode ++ rest)) TimeZone.Data.empty =
      some (true, z.table) := by
  have h : (readZone stack).run.run ⟨z.encode ++ rest, TimeZone.Data.empty⟩ = _ :=
    z.readZone_encode rest hstack hfit
  rw [readTimeZoneFile, h]
  rfl

theorem readTimeZoneFile_stuck (z : Block) (rest : List UInt8)
    (h : ¬ (15 ≤ stack ∧ z.abbreviation.length ≤ stack)) :
    readTimeZoneFile stack (some (z.encode ++ rest)) TimeZone.Data.empty = none := by
  have h : (readZone stack).run.run ⟨z.encode ++ rest, TimeZone.Data.empty⟩ = none :=
    z.readZone_stuck rest h
  rw [readTimeZoneFile, h]
  rfl

/-! ### What is read completely -/

/-- A count that steered a loop is the length of what the loop read. -/
theorem count_eq {cnt : Int32} {n : Nat} (h : 0 ≤ cnt.toInt) (hn : n = cnt.toInt.toNat) :
    be32 cnt.toUInt32 = count n ∧ n < 2 ^ 31 := by
  have hlt := Int32.toInt_lt cnt
  have hcnt : n < 2 ^ 31 := by omega
  refine ⟨?_, hcnt⟩
  have : cnt = Int32.ofNat n := by
    apply Int32.toInt_inj.mp
    rw [toInt_count hcnt]
    omega
  rw [count, this]

theorem readHeader_inv {cnt : Counts} {s t : Reader.State TimeZone.Data}
    (h : Runs (readHeader stack) s cnt t) :
    15 ≤ stack ∧ t.data = s.data ∧ ∃ version reserved isgmtcnt isstdcnt leapcnt,
      reserved.length = 15 ∧ s.input = ascii "TZif" ++ version :: (reserved ++
        (be32 (Int32.toUInt32 isgmtcnt) ++ (be32 (Int32.toUInt32 isstdcnt) ++
          (be32 (Int32.toUInt32 leapcnt) ++ (be32 cnt.timecnt.toUInt32 ++
            (be32 cnt.typecnt.toUInt32 ++ (be32 cnt.charcnt.toUInt32 ++ t.input))))))) := by
  unfold readHeader at h
  obtain ⟨head, s1, h1, h⟩ := runs_bind.mp h
  split at h
  · exact (runs_throw h).elim
  rename_i hhead
  simp only [runs_bind, runs_pure] at h
  obtain ⟨version, s2, h2, reserved, s3, h3, isgmtcnt, s4, h4, isstdcnt, s5, h5, leapcnt, s6, h6,
    timecnt, s7, h7, typecnt, s8, h8, charcnt, s9, h9, rfl, rfl⟩ := h
  obtain ⟨-, -, i1, d1⟩ := runs_readBytes.mp h1
  obtain ⟨-, l2, i2, d2⟩ := runs_readBytes.mp h2
  obtain ⟨⟨-, hstack⟩, l3, i3, d3⟩ := runs_readBytes.mp h3
  obtain ⟨i4, d4⟩ := reads_readInt32.accepted h4
  obtain ⟨i5, d5⟩ := reads_readInt32.accepted h5
  obtain ⟨i6, d6⟩ := reads_readInt32.accepted h6
  obtain ⟨i7, d7⟩ := reads_readInt32.accepted h7
  obtain ⟨i8, d8⟩ := reads_readInt32.accepted h8
  obtain ⟨i9, d9⟩ := reads_readInt32.accepted h9
  obtain ⟨v, rfl⟩ := List.length_eq_one_iff.mp l2
  refine ⟨by omega, by rw [d9, d8, d7, d6, d5, d4, d3, d2, d1], v, reserved, isgmtcnt, isstdcnt,
    leapcnt, l3, ?_⟩
  rw [i1, not_not.mp hhead, i2, i3, i4, i5, i6, i7, i8, i9]
  rfl

theorem readTables_inv {timecnt typecnt : Int32} {s t : Reader.State TimeZone.Data}
    (h : Runs (readTables timecnt typecnt) s () t) (hs : s.data = TimeZone.Data.empty) :
    ∃ (instants : List (Int32 × UInt8)) (types : List (Int32 × UInt8 × UInt8)),
      (0 ≤ timecnt.toInt ∧ instants.length = timecnt.toInt.toNat) ∧
      types.length = typecnt.toInt.toNat ∧ (∀ x ∈ instants, x.2.toNat < types.length) ∧
      s.input = instants.flatMap (fun x => be32 x.1.toUInt32) ++ (instants.map Prod.snd ++
        (types.flatMap encodeType ++ t.input)) ∧
      t.data =
        ⟨instants.map (toTransition (types.map toLocaltime)), types.map toLocaltime, []⟩ := by
  unfold readTables at h
  simp only [runs_bind] at h
  obtain ⟨_, s1, h1, trans, s2, h2, indexes, s3, h3, types, s4, h4, h5⟩ := h
  obtain ⟨hreserve, rfl⟩ := runs_reserve.mp h1
  obtain ⟨l2, i2, d2⟩ := reads_readInt32.times.mp h2
  obtain ⟨l3, i3, d3⟩ := reads_readUInt8.times.mp h3
  obtain ⟨l4, i4, d4⟩ := reads_readLocaltime.times.mp h4
  obtain ⟨hindex, rfl⟩ := runs_addTransitions.mp h5
  have hdata : s4.data = { TimeZone.Data.empty with localtimes := types.map toLocaltime } := by
    rw [d4, foldl_localtimes, d3, foldl_id, d2, foldl_id, hs]
    rfl
  have hfst : (trans.zip indexes).map Prod.fst = trans := List.map_fst_zip (by omega)
  have hsnd : (trans.zip indexes).map Prod.snd = indexes := List.map_snd_zip (by omega)
  have hinstants : (trans.zip indexes).flatMap (fun x => be32 x.1.toUInt32) =
      trans.flatMap fun x => be32 x.toUInt32 := by
    conv_rhs => rw [← hfst, List.flatMap_map]
  refine ⟨trans.zip indexes, types, ⟨hreserve, by rw [List.length_zip]; omega⟩, l4, fun x hx => ?_,
    ?_, ?_⟩
  · have := hindex x hx
    simpa [hdata] using this
  · rw [hsnd, hinstants, i2, i3, i4, List.flatMap_singleton']
  · simp only [hdata]
    rfl

/-- **What is read completely is a block** whose strings fit the stack, unless it has no types. -/
theorem readZone_inv {content : List UInt8} {t : Reader.State TimeZone.Data}
    (h : Runs (readZone stack) ⟨content, TimeZone.Data.empty⟩ () t)
    (hne : t.data.localtimes ≠ []) :
    ∃ (z : Block) (rest : List UInt8), content = z.encode ++ rest ∧ t.data = z.table ∧
      15 ≤ stack ∧ z.abbreviation.length ≤ stack := by
  unfold readZone at h
  simp only [runs_bind] at h
  obtain ⟨cnt, s1, h1, _, s2, h2, abbreviation, s3, h3, h4⟩ := h
  obtain ⟨hstack, d1, version, reserved, isgmtcnt, isstdcnt, leapcnt, hreserved, i1⟩ :=
    readHeader_inv h1
  obtain ⟨instants, types, ⟨htime, hinstants⟩, htypes, hindex, i2, d2⟩ := readTables_inv h2 d1
  obtain ⟨⟨hchar, hfit⟩, habbr, i3, d3⟩ := runs_readBytes.mp h3
  obtain rfl := runs_modifyData.mp h4
  have hpos : 0 < types.length := by
    rw [d3, d2] at hne
    exact List.length_pos_iff.mpr fun hnil => hne (List.map_eq_nil_iff.mpr hnil)
  obtain ⟨c1, b1⟩ := count_eq htime hinstants
  obtain ⟨c2, b2⟩ := count_eq (by omega) htypes
  obtain ⟨c3, b3⟩ := count_eq hchar habbr
  have hfit : abbreviation.length ≤ stack := by omega
  refine ⟨⟨version, reserved, isgmtcnt, isstdcnt, leapcnt, instants, types, abbreviation, hreserved,
    b1, b2, b3, hindex⟩, s3.input, ?_, ?_, hstack, hfit⟩
  · rw [show content = _ from i1, c1, c2, c3, i2, i3]
    simp only [encode, List.append_assoc]
    rfl
  · rw [d3, d2]
    rfl

end Block

/-- Summer time on 8 March 2020, and back on 1 November, in New York. -/
def newYork2020 : Block where
  version := 0
  reserved := List.replicate 15 0
  isgmtcnt := 0
  isstdcnt := 0
  leapcnt := 0
  instants := [(1583650800, 1), (1604210400, 0)]
  types := [(-18000, 0, 0), (-14400, 1, 4)]
  abbreviation := ascii "EST" ++ [0] ++ ascii "EDT" ++ [0]
  reserved_length := rfl
  instants_length := by decide
  types_length := by decide
  abbreviation_length := by decide
  index_lt := by simp

/-- The table of the block: the types, the transitions in their order and the abbreviations. -/
def Recovered (stack : Nat) (z : Block) (rest : List UInt8) : Prop :=
  ∃ data, readTimeZoneFile stack (some (z.encode ++ rest)) TimeZone.Data.empty =
      some (true, data) ∧
    data.localtimes = z.types.map (fun x => ⟨x.1.toInt, x.2.1 ≠ 0, x.2.2.toNat⟩) ∧
    data.abbreviation = z.abbreviation ∧
    data.transitions.length = z.instants.length ∧
    ∀ (i : Nat) x, z.instants[i]? = some x → ∃ type, z.types[x.2.toNat]? = some type ∧
      data.transitions[i]? = some ⟨x.1.toInt, x.1.toInt + type.1.toInt, x.2.toNat⟩

/-- **Which zone files are recovered**: for every block, whatever follows it, exactly if the
reserved bytes of its header and its abbreviations fit the stack. -/
theorem zoneFile_recovered_iff (stack : Nat) (z : Block) (rest : List UInt8) :
    Recovered stack z rest ↔ 15 ≤ stack ∧ z.abbreviation.length ≤ stack := by
  constructor
  · rintro ⟨data, hread, -⟩
    by_contra h
    rw [z.readTimeZoneFile_stuck rest h] at hread
    cases hread
  · rintro ⟨hstack, hfit⟩
    refine ⟨z.table, z.readTimeZoneFile_encode rest hstack hfit, rfl, rfl, List.length_map _, ?_⟩
    intro i x hx
    have htype := List.getElem?_eq_getElem (z.index_lt x (List.mem_of_getElem? hx))
    refine ⟨_, htype, ?_⟩
    unfold Block.table
    rw [List.getElem?_map, hx, Option.map_some, toTransition, List.getElem?_map, htype]
    rfl

/-- One type and `n` bytes of abbreviations. -/
def longNames (n : Nat) (h : n < 2 ^ 31) : Block where
  version := 0
  reserved := List.replicate 15 0
  isgmtcnt := 0
  isstdcnt := 0
  leapcnt := 0
  instants := []
  types := [(3600, 0, 0)]
  abbreviation := List.replicate n 65
  reserved_length := rfl
  instants_length := by decide
  types_length := by decide
  abbreviation_length := by rwa [List.length_replicate]
  index_lt := by simp

/-- Nine million bytes of abbreviations, on a stack of 8 MiB. -/
theorem zoneFile_overruns_stack : ¬ Recovered 8388608 (longNames 9000000 (by decide)) [] := by
  rintro ⟨data, hread, -⟩
  have hlen : (longNames 9000000 (by decide)).abbreviation.length = 9000000 :=
    List.length_replicate
  rw [Block.readTimeZoneFile_stuck _ _ (by omega)] at hread
  cases hread

end MultiThreadLog
