import MultiThreadLog.Lib.Steps
import MultiThreadLog.Time.TimeZone

/-!
# The table of a zone

`findLocaltime` finds a type wherever the indexes of the table are in range, in whatever order the
transitions are (`findLocaltime_defined`); then both conversions are defined
(`toLocalTime_defined`, `fromLocalTime_defined`). On transitions whose keys increase the bisection
amounts to a linear scan for the last transition at or before the sentry (`findLocaltime_eq`), so
a table is a step function from instants to types, and by local second the same steps shifted
(`Describes`).
-/

namespace MultiThreadLog

open Steps

/-- What the comparison looks at. -/
def Comp.key (comp : Comp) (t : Transition) : Int :=
  if comp.compareGmt then t.gmttime else t.localtime

theorem Comp.lt_iff {comp : Comp} {a b : Transition} :
    comp.lt a b = true ↔ comp.key a < comp.key b := by
  unfold Comp.lt Comp.key
  split <;> simp

theorem Comp.equal_iff {comp : Comp} {a b : Transition} :
    comp.equal a b = true ↔ comp.key a = comp.key b := by
  unfold Comp.equal Comp.key
  split <;> simp

namespace TimeZone

namespace Data

/-- The type of a transition. -/
def typeOf (data : Data) (t : Transition) : Option Localtime := data.localtimes[t.localtimeIdx]?

/-- Every access of the lookup stays within `localtimes`. -/
structure InRange (data : Data) : Prop where
  types : data.localtimes ≠ []
  index : ∀ t ∈ data.transitions, t.localtimeIdx < data.localtimes.length

end Data

variable {data : Data} {sentry : Transition} {comp : Comp}

/-- The transitions as steps from one type to the next, by instant or by local second. -/
def Data.steps (data : Data) (comp : Comp) : List (Int × Option Localtime) :=
  data.transitions.map fun t => (comp.key t, data.typeOf t)

/-! ## The lookup -/

theorem less_iff {i : Nat} {l : List Transition} :
    (l[i]?).any (comp.lt · sentry) = true ↔ ∃ t, l[i]? = some t ∧ comp.key t < comp.key sentry := by
  simp only [Option.any_eq_true, Comp.lt_iff]

/-- Where `std::lower_bound` splits a range, in whatever order it is. -/
theorem lowerBound_split (comp : Comp) (sentry : Transition) (l : List Transition) :
    ∃ pre post, l = pre ++ post ∧ lowerBound comp sentry l = pre.length ∧
      (∀ t ∈ pre.getLast?, comp.key t < comp.key sentry) ∧
      ∀ t ∈ post.head?, comp.key sentry ≤ comp.key t := by
  have hle : lowerBound comp sentry l ≤ l.length := by
    have := Bisection.bisect_le (fun i => (l[i]?).any (comp.lt · sentry)) 0 l.length
    rwa [Nat.zero_add] at this
  have hlen : (l.take (lowerBound comp sentry l)).length = lowerBound comp sentry l :=
    List.length_take_of_le hle
  refine ⟨l.take (lowerBound comp sentry l), l.drop (lowerBound comp sentry l),
    (List.take_append_drop _ _).symm, hlen.symm, fun t ht => ?_, fun t ht => ?_⟩
  · have hpos : 0 < lowerBound comp sentry l := by
      rw [← hlen]
      exact List.length_pos_of_mem (List.mem_of_getLast? ht)
    obtain ⟨u, hu, hlt⟩ := less_iff.mp (Bisection.less_pred_bisect hpos)
    rw [List.getLast?_eq_getElem?, hlen, List.getElem?_take_of_lt (by omega)] at ht
    exact Option.some.inj (hu.symm.trans ht) ▸ hlt
  · rw [List.head?_drop] at ht
    have hlt : lowerBound comp sentry l < 0 + l.length := by
      rw [Nat.zero_add]
      exact (List.getElem?_eq_some_iff.mp ht).1
    by_contra hn
    have hless := less_iff.mpr ⟨t, ht, Int.not_le.mp hn⟩
    exact Bool.false_ne_true ((Bisection.not_less_bisect hlt).symm.trans hless)

section Split

variable {pre post : List Transition} {t : Transition}

theorem transition_at (ht : data.transitions = pre ++ t :: post) :
    data.transitions[pre.length]? = some t := by
  rw [ht, List.getElem?_append_right (Nat.le_refl _), Nat.sub_self, List.getElem?_cons_zero]

/-- At a transition at the sentry. -/
theorem localtimeAt_eq (ht : data.transitions = pre ++ t :: post)
    (heq : comp.key sentry = comp.key t) :
    localtimeAt data sentry comp pre.length = data.typeOf t := by
  unfold localtimeAt
  rw [transition_at ht]
  exact if_pos (Comp.equal_iff.mpr heq)

/-- Behind a transition, if the next one is not at the sentry. -/
theorem localtimeAt_succ (ht : data.transitions = pre ++ t :: post)
    (hpost : ∀ u ∈ post.head?, comp.key sentry < comp.key u) :
    localtimeAt data sentry comp (pre.length + 1) = data.typeOf t := by
  have hnext : data.transitions[pre.length + 1]? = post.head? := by
    rw [ht, List.getElem?_append_right (Nat.le_add_right _ 1), Nat.add_sub_cancel_left,
      List.getElem?_cons_succ, List.head?_eq_getElem?]
  unfold localtimeAt
  rw [hnext]
  cases hhead : post.head? with
  | some u =>
    have hu := hpost u hhead
    simp only
    rw [if_neg (by rw [Comp.equal_iff]; omega), if_neg (Nat.succ_ne_zero _), Nat.add_sub_cancel,
      transition_at ht]
    rfl
  | none =>
    rw [ht, List.head?_eq_none_iff.mp hhead, List.getLast?_concat]
    rfl

/-- A sentry before the first transition. -/
theorem findLocaltime_before (hpost : ∀ u ∈ data.transitions.head?, comp.key sentry < comp.key u) :
    findLocaltime data sentry comp = data.localtimes.head? := by
  unfold findLocaltime
  split
  · rfl
  · rename_i front rest hcons
    rw [if_pos (Comp.lt_iff.mpr (hpost front (by rw [hcons]; rfl)))]

theorem findLocaltime_search {front : Transition} (hfront : front ∈ data.transitions.head?)
    (hle : comp.key front ≤ comp.key sentry) : findLocaltime data sentry comp =
      localtimeAt data sentry comp (lowerBound comp sentry data.transitions) := by
  obtain ⟨rest, hcons⟩ := List.head?_eq_some_iff.mp hfront
  unfold findLocaltime
  rw [hcons]
  exact if_neg (by rw [Comp.lt_iff]; omega)

end Split

/-- **What the lookup finds**: the type of a last transition at or before the sentry, or the first
type if there is none. If the transitions are sorted, the next one is after the sentry. -/
theorem findLocaltime_spec (data : Data) (sentry : Transition) (comp : Comp) :
    ∃ pre post, data.transitions = pre ++ post ∧
      (∀ u ∈ pre.getLast?, comp.key u ≤ comp.key sentry) ∧
      (Sorted (data.steps comp) → ∀ u ∈ post.head?, comp.key sentry < comp.key u) ∧
      findLocaltime data sentry comp =
        (pre.getLast?.map data.typeOf).getD data.localtimes.head? := by
  by_cases hfirst : ∃ front ∈ data.transitions.head?, comp.key front ≤ comp.key sentry
  swap
  · have hbefore : ∀ u ∈ data.transitions.head?, comp.key sentry < comp.key u := fun u hu =>
      Int.not_le.mp fun hle => hfirst ⟨u, hu, hle⟩
    exact ⟨[], data.transitions, rfl, by simp, fun _ => hbefore, findLocaltime_before hbefore⟩
  obtain ⟨front, hfront, hle⟩ := hfirst
  rw [findLocaltime_search hfront hle]
  obtain ⟨pre, post, ht, hlen, hpre, hpost⟩ := lowerBound_split comp sentry data.transitions
  rw [hlen]
  by_cases hat : ∃ t rest, post = t :: rest ∧ comp.key sentry = comp.key t
  · obtain ⟨t, rest, rfl, heq⟩ := hat
    refine ⟨pre ++ [t], rest, by rw [ht, List.append_assoc]; rfl, ?_, fun hs u hu => ?_, ?_⟩
    · rw [List.getLast?_concat]
      exact fun u hu => Option.some.inj hu ▸ Int.le_of_eq heq.symm
    · obtain ⟨rest, rfl⟩ := List.head?_eq_some_iff.mp hu
      have hchain := (List.isChain_map _).mp hs
      rw [ht] at hchain
      exact heq ▸ (List.isChain_append_cons_cons.mp hchain).2.1
    · rw [localtimeAt_eq ht heq, List.getLast?_concat]
      rfl
  · have hafter : ∀ u ∈ post.head?, comp.key sentry < comp.key u := by
      intro u hu
      obtain ⟨rest, rfl⟩ := List.head?_eq_some_iff.mp hu
      have hne : comp.key sentry ≠ comp.key u := fun heq => hat ⟨u, rest, rfl, heq⟩
      have := hpost u hu
      omega
    refine ⟨pre, post, ht, fun u hu => Int.le_of_lt (hpre u hu), fun _ => hafter, ?_⟩
    rcases List.eq_nil_or_concat pre with rfl | ⟨init, t, rfl⟩
    · -- nothing is in front of the position, but the first transition is not after the sentry
      have := hafter front (by rwa [ht] at hfront)
      omega
    · rw [List.concat_eq_append] at ht ⊢
      rw [List.append_assoc] at ht
      rw [List.length_append, List.length_singleton, localtimeAt_succ ht hafter,
        List.getLast?_concat]
      rfl

theorem typeOf_defined (h : data.InRange) {t : Transition} (ht : t ∈ data.transitions) :
    ∃ loc ∈ data.localtimes, data.localtimes[t.localtimeIdx]? = some loc :=
  ⟨_, List.getElem_mem (h.index t ht), List.getElem?_eq_getElem (h.index t ht)⟩

/-- Behind the call of `std::lower_bound` every position will do, the first one only if the
transition there is at the sentry. -/
theorem localtimeAt_defined (h : data.InRange) (hne : data.transitions ≠ []) {transI : Nat}
    (hbegin : transI = 0 → ∀ t ∈ data.transitions.head?, comp.key sentry = comp.key t) :
    ∃ loc ∈ data.localtimes, localtimeAt data sentry comp transI = some loc := by
  unfold localtimeAt
  split
  · rename_i t ht
    have hlt := (List.getElem?_eq_some_iff.mp ht).1
    split
    · exact typeOf_defined h (List.mem_of_getElem? ht)
    · rename_i hneq
      have hpos : transI ≠ 0 := by
        rintro rfl
        exact hneq (Comp.equal_iff.mpr (hbegin rfl t (by rwa [List.head?_eq_getElem?])))
      rw [if_neg hpos, List.getElem?_eq_getElem (by omega : transI - 1 < _)]
      exact typeOf_defined h (List.getElem_mem _)
  · rw [List.getLast?_eq_some_getLast hne]
    exact typeOf_defined h (List.getLast_mem hne)

/-- The bisection ends at the first position only if the transition there is not before the
sentry. -/
theorem lowerBound_zero {l : List Transition} (h : lowerBound comp sentry l = 0) :
    ∀ t ∈ l.head?, comp.key sentry ≤ comp.key t := by
  obtain ⟨pre, post, rfl, hlen, -, hpost⟩ := lowerBound_split comp sentry l
  obtain rfl := List.length_eq_zero_iff.mp (hlen.symm.trans h)
  exact hpost

/-- **The lookup stays in range**, whatever the order of the transitions. -/
theorem findLocaltime_defined (h : data.InRange) (sentry : Transition) (comp : Comp) :
    ∃ loc ∈ data.localtimes, findLocaltime data sentry comp = some loc := by
  by_cases hfirst : ∃ front ∈ data.transitions.head?, comp.key front ≤ comp.key sentry
  · obtain ⟨front, hfront, hle⟩ := hfirst
    rw [findLocaltime_search hfront hle]
    refine localtimeAt_defined h ?_ fun h0 t ht => ?_
    · intro hnil
      rw [hnil] at hfront
      cases hfront
    · obtain rfl := Option.some.inj (hfront.symm.trans ht)
      exact Int.le_antisymm (lowerBound_zero h0 front hfront) hle
  · rw [findLocaltime_before fun u hu => Int.not_le.mp fun hle => hfirst ⟨u, hu, hle⟩]
    obtain ⟨loc, rest, e⟩ := List.exists_cons_of_ne_nil h.types
    exact ⟨loc, by rw [e]; exact List.mem_cons_self, by rw [e]; rfl⟩

/-- Without types there is nothing to find. -/
theorem findLocaltime_of_nil (h : data.localtimes = []) :
    findLocaltime data sentry comp = .none := by
  obtain ⟨pre, post, -, -, -, hfind⟩ := findLocaltime_spec data sentry comp
  rw [hfind, h]
  cases pre.getLast? with
  | none => rfl
  | some t =>
    show data.localtimes[t.localtimeIdx]? = .none
    rw [h, List.getElem?_nil]

/-- The abbreviations of the types begin within the string, or at its end. -/
def Data.Named (data : Data) : Prop :=
  ∀ loc ∈ data.localtimes, loc.arrbIdx ≤ data.abbreviation.length

theorem toLocalTime_defined (h : data.InRange) (hn : data.Named) (t : Int) :
    ∃ l, toLocalTime ⟨some data⟩ t = some l := by
  obtain ⟨loc, hmem, hloc⟩ := findLocaltime_defined h ⟨t, 0, 0⟩ ⟨true⟩
  unfold toLocalTime
  rw [Option.bind_some, hloc, Option.bind_some, if_pos (hn loc hmem)]
  exact ⟨_, rfl⟩

theorem fromLocalTime_defined (h : data.InRange) (hn : data.Named) (tm : Tm) :
    ∃ r, fromLocalTime ⟨some data⟩ tm = some r := by
  obtain ⟨loc, hmem, hloc⟩ := findLocaltime_defined h ⟨0, timegm tm, 0⟩ ⟨false⟩
  obtain ⟨tryTm, htry⟩ := toLocalTime_defined h hn (timegm tm - loc.gmtOffset)
  unfold fromLocalTime
  simp only [Option.bind_some, hloc]
  split
  · rw [htry]
    exact ⟨_, rfl⟩
  · exact ⟨_, rfl⟩

/-! ## The lookup as a scan -/

theorem valueAt_steps {pre post : List Transition} (h : Sorted (data.steps comp))
    (ht : data.transitions = pre ++ post) {k : Int}
    (hpre : ∀ u ∈ pre.getLast?, comp.key u ≤ k) (hpost : ∀ u ∈ post.head?, k < comp.key u)
    (init : Option Localtime) : valueAt init (data.steps comp) k =
      (pre.getLast?.map data.typeOf).getD init := by
  unfold Data.steps at h ⊢
  rw [ht, List.map_append] at h ⊢
  rw [valueAt_split h, last, List.getLast?_map, Option.map_map]
  · rfl
  · intro x hx
    rw [List.getLast?_map] at hx
    obtain ⟨u, hu, rfl⟩ := Option.map_eq_some_iff.mp hx
    exact hpre u hu
  · intro x hx
    rw [List.head?_map] at hx
    obtain ⟨u, hu, rfl⟩ := Option.map_eq_some_iff.mp hx
    exact hpost u hu

/-- **The lookup is a linear scan** for the last transition at or before the sentry. -/
theorem findLocaltime_eq (h : Sorted (data.steps comp)) (sentry : Transition) :
    findLocaltime data sentry comp =
      valueAt data.localtimes.head? (data.steps comp) (comp.key sentry) := by
  obtain ⟨pre, post, ht, hpre, hpost, hfind⟩ := findLocaltime_spec data sentry comp
  rw [hfind, valueAt_steps h ht hpre (hpost h)]

/-- The last transition at or before the sentry, looking at all of them. -/
def Data.scan (data : Data) (comp : Comp) (sentry : Transition) : Option Transition :=
  (data.transitions.filter fun t => comp.key t ≤ comp.key sentry).getLast?

/-- The scan finds the split of `findLocaltime_spec`. -/
theorem scan_eq {pre post : List Transition}
    (h : data.transitions.Pairwise fun t u => comp.key t < comp.key u)
    (ht : data.transitions = pre ++ post) (hpre : ∀ u ∈ pre.getLast?, comp.key u ≤ comp.key sentry)
    (hpost : ∀ u ∈ post.head?, comp.key sentry < comp.key u) :
    data.scan comp sentry = pre.getLast? := by
  rw [ht, List.pairwise_append] at h
  obtain ⟨hpairs, hpairs', -⟩ := h
  have hkeep : ∀ u ∈ pre, decide (comp.key u ≤ comp.key sentry) = true := by
    intro u hu
    rw [decide_eq_true_eq]
    rcases List.eq_nil_or_concat pre with rfl | ⟨init, t, rfl⟩
    · cases hu
    rw [List.concat_eq_append] at hu hpre hpairs
    have hlast := hpre t List.getLast?_concat
    rcases List.mem_append.mp hu with hu | hu
    · have := (List.pairwise_append.mp hpairs).2.2 u hu t List.mem_cons_self
      omega
    · rw [List.mem_singleton.mp hu]
      exact hlast
  have hdrop : ∀ u ∈ post, ¬ decide (comp.key u ≤ comp.key sentry) = true := by
    intro u hu
    rw [decide_eq_true_eq, Int.not_le]
    cases post with
    | nil => cases hu
    | cons t rest =>
      have hfirst := hpost t rfl
      rcases List.mem_cons.mp hu with rfl | hu
      · exact hfirst
      · exact Int.lt_trans hfirst ((List.pairwise_cons.mp hpairs').1 u hu)
  rw [Data.scan, ht, List.filter_append, List.filter_eq_self.mpr hkeep,
    List.filter_eq_nil_iff.mpr hdrop, List.append_nil]

/-- **The lookup against the scan.** On a table in range whose transitions increase, the lookup
finds the type of the transition that the scan finds, or the first type; no access leaves its
vector, and no assertion fails. -/
theorem findLocaltime_scan (data : Data) (comp : Comp) (sentry : Transition) (h : data.InRange)
    (hs : data.transitions.Pairwise fun t u => comp.key t < comp.key u) :
    ∃ loc, findLocaltime data sentry comp = some loc ∧
      match data.scan comp sentry with
      | some t => data.localtimes[t.localtimeIdx]? = some loc
      | .none => data.localtimes.head? = some loc := by
  obtain ⟨pre, post, ht, hpre, hpost, hfind⟩ := findLocaltime_spec data sentry comp
  obtain ⟨loc, -, hloc⟩ := findLocaltime_defined h sentry comp
  have hsorted : Sorted (data.steps comp) := (List.isChain_map _).mpr hs.isChain
  refine ⟨loc, hloc, ?_⟩
  rw [scan_eq hs ht hpre (hpost hsorted)]
  rw [hfind] at hloc
  cases hlast : pre.getLast? with
  | some t =>
    rw [hlast] at hloc
    exact hloc
  | none =>
    rw [hlast] at hloc
    exact hloc

/-- At the second of two transitions, by the local second. -/
theorem findLocaltime_scan_at :
    ∃ loc, findLocaltime ⟨[⟨100, 3700, 0⟩, ⟨200, 7400, 1⟩], [⟨3600, false, 0⟩, ⟨7200, true, 4⟩], []⟩
        ⟨0, 7400, 0⟩ ⟨false⟩ = some loc ∧
      match Data.scan ⟨[⟨100, 3700, 0⟩, ⟨200, 7400, 1⟩], [⟨3600, false, 0⟩, ⟨7200, true, 4⟩], []⟩
        ⟨false⟩ ⟨0, 7400, 0⟩ with
      | some t => [Localtime.mk 3600 false 0, ⟨7200, true, 4⟩][t.localtimeIdx]? = some loc
      | .none => [Localtime.mk 3600 false 0, ⟨7200, true, 4⟩].head? = some loc :=
  findLocaltime_scan _ _ _ ⟨by simp, by simp⟩ (by simp [Comp.key])

/-! ## The table as a step function -/

/-- The table says: `first` before the first transition, then from the instant of each transition
on its type. The local second of a transition is the one that the reader of the file computes. -/
structure Data.Describes (data : Data) (first : Localtime) (changes : List (Int × Localtime)) :
    Prop where
  first : data.localtimes.head? = some first
  changes : List.Forall₂ (fun t c => t.gmttime = c.1 ∧ data.typeOf t = some c.2 ∧
    t.localtime = c.1 + c.2.gmtOffset) data.transitions changes

variable {first : Localtime} {changes : List (Int × Localtime)}

/-- Every table in range has a description. -/
theorem exists_describes (h : data.InRange)
    (hlocal : ∀ t ∈ data.transitions, ∀ loc ∈ data.typeOf t,
      t.localtime = t.gmttime + loc.gmtOffset) :
    ∃ first changes, data.Describes first changes := by
  obtain ⟨first, rest, hfirst⟩ := List.exists_cons_of_ne_nil h.types
  refine ⟨first, data.transitions.map fun t => (t.gmttime, (data.typeOf t).getD first),
    by rw [hfirst]; rfl, ?_⟩
  rw [List.forall₂_map_right_iff, List.forall₂_same]
  intro t ht
  obtain ⟨loc, -, hloc⟩ := typeOf_defined h ht
  have htype : data.typeOf t = some loc := hloc
  rw [htype]
  exact ⟨rfl, rfl, hlocal t ht loc htype⟩

theorem map_eq_of_forall₂ {α β γ : Type} {R : α → β → Prop} {f : α → γ} {g : β → γ} {l : List α}
    {l' : List β} (h : List.Forall₂ R l l') (hfg : ∀ a b, R a b → f a = g b) :
    l.map f = l'.map g := by
  induction h with
  | nil => rfl
  | cons hab _ ih => rw [List.map_cons, List.map_cons, hfg _ _ hab, ih]

theorem exists_of_forall₂ {α β : Type} {R : α → β → Prop} {l : List α} {l' : List β} {a : α}
    (h : List.Forall₂ R l l') (ha : a ∈ l) : ∃ b, R a b := by
  induction h with
  | nil => cases ha
  | cons hab _ ih =>
    rcases List.mem_cons.mp ha with rfl | ha
    · exact ⟨_, hab⟩
    · exact ih ha

theorem Data.Describes.inRange (h : data.Describes first changes) : data.InRange where
  types hnil := by
    have := h.first
    rw [hnil] at this
    cases this
  index t ht := by
    obtain ⟨c, -, hc, -⟩ := exists_of_forall₂ h.changes ht
    exact (List.getElem?_eq_some_iff.mp hc).1

theorem findLocaltime_gmt (h : data.Describes first changes) (hs : Sorted changes) (t : Int) :
    findLocaltime data ⟨t, 0, 0⟩ ⟨true⟩ = some (valueAt first changes t) := by
  have hsteps : data.steps ⟨true⟩ = changes.map fun c => (c.1, some c.2) :=
    map_eq_of_forall₂ h.changes fun a b hab => by rw [hab.2.1, ← hab.1]; rfl
  rw [findLocaltime_eq, hsteps, h.first, valueAt_map some]
  · rfl
  · rw [hsteps]
    exact (List.isChain_map _).mpr hs

theorem findLocaltime_local (h : data.Describes first changes)
    (hs : Sorted (shifted Localtime.gmtOffset changes)) (t : Int) :
    findLocaltime data ⟨0, t, 0⟩ ⟨false⟩ =
      some (valueAt first (shifted Localtime.gmtOffset changes) t) := by
  have hsteps : data.steps ⟨false⟩ =
      (shifted Localtime.gmtOffset changes).map fun c => (c.1, some c.2) := by
    rw [shifted, List.map_map]
    exact map_eq_of_forall₂ h.changes fun a b hab => by rw [hab.2.1]; simp [Comp.key, hab.2.2]
  rw [findLocaltime_eq, hsteps, h.first, valueAt_map some]
  · rfl
  · rw [hsteps]
    exact (List.isChain_map _).mpr hs

end TimeZone

end MultiThreadLog
