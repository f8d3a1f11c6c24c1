import MultiThreadLog.Time.Lookup
import MultiThreadLog.Time.ZoneFile

/-!
# Files that cannot be read

`TimeZone(zonefile)` resets `data_` when `readTimeZoneFile` returns `false`, which it never does
(`valid_of_ofFile`). So a zone is valid and half-filled after a missing or broken file, and its
conversions fail. The files that give a usable zone are those that begin with a block that has
types, whose abbreviation indexes are in range and whose strings fit the stack
(`zoneFile_usable_iff`).
-/

namespace MultiThreadLog

open Bytes Reader

namespace TimeZone

/-- The file can be opened and read to the end of its block, and its indexes are in range: those
of the transitions, or else reading it is undefined, and those of the abbreviations. -/
def Consistent (stack : Nat) (zonefile : Option (List UInt8)) : Prop :=
  ∃ content s, zonefile = some content ∧ Runs (readZone stack) ⟨content, Data.empty⟩ () s ∧
    s.data.Named

/-- The zone of the file, if valid, converts in both directions without leaving `localtimes` or
`abbreviation`, and is valid only if the file is consistent. -/
def Usable (stack : Nat) (zonefile : Option (List UInt8)) : Prop :=
  ∃ z, ofFile stack zonefile = some z ∧
    (z.valid = true → (∀ t, ∃ l, z.toLocalTime t = some l) ∧
      ∀ tm, ∃ t, z.fromLocalTime tm = some t) ∧
    (¬ Consistent stack zonefile → z.valid = false)

variable {stack : Nat} {zonefile : Option (List UInt8)} {z : TimeZone}

/-- No failure to read the file is reported. -/
theorem valid_of_ofFile (h : ofFile stack zonefile = some z) : z.valid = true := by
  unfold ofFile at h
  obtain ⟨⟨ok, data⟩, hread, rfl⟩ := Option.map_eq_some_iff.mp h
  suffices hok : ok = true by rw [hok]; rfl
  unfold readTimeZoneFile at hread
  split at hread
  · obtain ⟨s, -, hs⟩ := Option.map_eq_some_iff.mp hread
    exact (Prod.mk.inj hs).1.symm
  · exact (Prod.mk.inj (Option.some.inj hread)).1.symm

/-- What a complete run of the reader leaves is the zone's table. -/
theorem ofFile_of_runs {content : List UInt8} {s : Reader.State Data}
    (h : Runs (readZone stack) ⟨content, Data.empty⟩ () s) :
    ofFile stack (some content) = some ⟨some s.data⟩ := by
  have hrun : (readZone stack).run.run ⟨content, Data.empty⟩ = _ := h
  rw [ofFile, readTimeZoneFile, hrun]
  rfl

theorem toLocalTime_of_nil {data : Data} (h : data.localtimes = []) (t : Int) :
    toLocalTime ⟨some data⟩ t = .none := by
  unfold toLocalTime
  rw [Option.bind_some, findLocaltime_of_nil h]
  rfl

end TimeZone

open TimeZone

namespace Block

variable {z : Block}

theorem inRange_table (h : z.types ≠ []) : z.table.InRange where
  types hnil := h (List.map_eq_nil_iff.mp hnil)
  index t ht := by
    obtain ⟨x, hx, rfl⟩ := List.mem_map.mp ht
    exact (z.index_lt x hx).trans_eq (List.length_map _).symm

theorem named_table :
    z.table.Named ↔ ∀ x ∈ z.types, x.2.2.toNat ≤ z.abbreviation.length :=
  List.forall_mem_map

/-- The table of a block is a step function. -/
theorem describes_table (h : z.types ≠ []) :
    ∃ first changes, z.table.Describes first changes := by
  refine exists_describes (inRange_table h) fun t ht loc hloc => ?_
  obtain ⟨x, -, rfl⟩ := List.mem_map.mp ht
  have hloc : (z.types.map toLocaltime)[x.2.toNat]? = some loc := hloc
  simp only [toTransition, hloc, Option.map_some, Option.getD_some]

end Block

/-- **Which files give a usable zone.** -/
theorem zoneFile_usable_iff (stack : Nat) (zonefile : Option (List UInt8)) :
    Usable stack zonefile ↔ ∃ (z : Block) (rest : List UInt8), zonefile = some (z.encode ++ rest) ∧
      z.types ≠ [] ∧ (∀ x ∈ z.types, x.2.2.toNat ≤ z.abbreviation.length) ∧
      15 ≤ stack ∧ z.abbreviation.length ≤ stack := by
  constructor
  · rintro ⟨zone, hzone, hconv, hinvalid⟩
    have hvalid := valid_of_ofFile hzone
    -- the zone is valid, so the file was read to its end
    have hcons : Consistent stack zonefile := by
      by_contra hn
      rw [hinvalid hn] at hvalid
      cases hvalid
    obtain ⟨content, s, rfl, hrun, hnamed⟩ := hcons
    obtain rfl := Option.some.inj ((ofFile_of_runs hrun).symm.trans hzone)
    have hne : s.data.localtimes ≠ [] := by
      intro hnil
      obtain ⟨l, hl⟩ := (hconv hvalid).1 0
      rw [toLocalTime_of_nil hnil] at hl
      cases hl
    obtain ⟨z, rest, rfl, htable, hstack, hfit⟩ := Block.readZone_inv hrun hne
    rw [htable] at hne hnamed
    exact ⟨z, rest, rfl, fun hnil => hne (List.map_eq_nil_iff.mpr hnil),
      Block.named_table.mp hnamed, hstack, hfit⟩
  · rintro ⟨z, rest, rfl, htypes, habbr, hstack, hfit⟩
    have hrun := z.readZone_encode rest hstack hfit
    have hnamed := Block.named_table.mpr habbr
    have hrange := Block.inRange_table htypes
    refine ⟨_, ofFile_of_runs hrun, fun _ => ⟨?_, ?_⟩, fun hn => ?_⟩
    · exact toLocalTime_defined hrange hnamed
    · exact fromLocalTime_defined hrange hnamed
    · exact absurd ⟨_, _, rfl, hrun, hnamed⟩ hn

/-- On a stack of 8 MiB a missing file gives a valid zone, whose conversions read the front of an
empty vector. -/
theorem zoneFile_missing : ¬ Usable 8388608 .none ∧
    ∃ z, ofFile 8388608 .none = some z ∧ z.valid = true ∧ z.toLocalTime 0 = .none := by
  have hmissing : ∃ z, ofFile 8388608 .none = some z ∧ z.valid = true ∧ z.toLocalTime 0 = .none :=
    ⟨_, rfl, rfl, toLocalTime_of_nil rfl 0⟩
  refine ⟨?_, hmissing⟩
  rintro ⟨z, hz, hconv, -⟩
  obtain ⟨z', hz', hvalid, hfail⟩ := hmissing
  obtain rfl := Option.some.inj (hz.symm.trans hz')
  obtain ⟨l, hl⟩ := (hconv hvalid).1 0
  rw [hfail] at hl
  cases hl

end MultiThreadLog
