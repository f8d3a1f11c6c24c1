import MultiThreadLog.Time.Lookup
import MultiThreadLog.Time.ZoneErrors

/-!
# Local time and back

`fromLocalTime` looks the local second up among the transitions by local second. Unless the clock
is about to be put back, that gives the type that `toLocalTime` used (`Steps.valueAt_shifted`) and
the second comes back. In the time before a transition that puts the clock back, whose wall clock
comes again, the lookup gives the type after the transition, and only the step of 3600 seconds in
`fromLocalTime` can lead to the first pass (`fromLocalTime_shown`).

So the second comes back in every zone whose clock is put back only by one hour at the end of
summer time (`fromLocalTime_toLocalTime`), and `fromLocalTime_sameClock_iff` says for every zone
when the result has the same wall clock and the same flag.
-/

namespace MultiThreadLog

open Steps

namespace TimeZone

variable {data : Data} {first c loc : Localtime} {changes pre post : List (Int × Localtime)}
  {x : Int × Localtime} {t r : Int} {l l' : Tm}

/-- What `toLocalTime` shows during the type `c`. -/
def Data.shown (data : Data) (c : Localtime) (t : Int) : Tm :=
  { gmtime (t + c.gmtOffset) with
    isdst := if c.isDst then 1 else 0
    gmtoff := c.gmtOffset
    zone := data.abbreviation.drop c.arrbIdx }

theorem timegm_shown : timegm (data.shown c t) = t + c.gmtOffset := timegm_gmtime _

theorem isdst_shown : (data.shown c t).isdst = 0 ↔ c.isDst = false := by
  unfold Data.shown
  cases c.isDst <;> simp

theorem toLocalTime_shown (h : data.Describes first changes) (hs : Sorted changes)
    (hl : toLocalTime ⟨some data⟩ t = some l) : l = data.shown (valueAt first changes t) t := by
  unfold toLocalTime at hl
  rw [Option.bind_some, findLocaltime_gmt h hs, Option.bind_some] at hl
  split at hl
  · exact (Option.some.inj hl).symm
  · cases hl

/-- The result for what is shown at `t`, if its local second is looked up as `loc`. The step of 3600
seconds is taken exactly when summer time is shown and `loc` is not. -/
theorem fromLocalTime_shown (h : data.Describes first changes)
    (hs : Spaced Localtime.gmtOffset first changes) (hc : valueAt first changes t = c)
    (hloc : valueAt first (shifted Localtime.gmtOffset changes) (t + c.gmtOffset) = loc)
    (hr : fromLocalTime ⟨some data⟩ (data.shown c t) = some r) :
    r = t + c.gmtOffset - loc.gmtOffset - if c.isDst && !loc.isDst then 3600 else 0 := by
  have hthen := valueAt_reading hs hc hloc
  unfold fromLocalTime at hr
  simp only [Option.bind_some, timegm_shown, findLocaltime_local h hs.shifted, hloc] at hr
  split at hr
  · rename_i hdst
    rw [ne_eq, isdst_shown, Bool.not_eq_false] at hdst
    obtain ⟨tryTm, htry, hr⟩ := Option.map_eq_some_iff.mp hr
    have htry' := toLocalTime_shown h hs.sorted htry
    rw [hthen] at htry'
    -- the wall clock is the one that was shown
    have hback : t + c.gmtOffset - loc.gmtOffset + loc.gmtOffset = t + c.gmtOffset := by omega
    have hour : tryTm.hour = (data.shown c t).hour := by
      rw [htry']
      show (gmtime _).hour = (gmtime _).hour
      rw [hback]
    have min : tryTm.min = (data.shown c t).min := by
      rw [htry']
      show (gmtime _).min = (gmtime _).min
      rw [hback]
    have hflag : tryTm.isdst = 0 ↔ loc.isDst = false := by rw [htry', isdst_shown]
    rw [← hr, hdst]
    cases hd : loc.isDst with
    | true =>
      rw [if_neg fun hc => by simp [hflag.mp hc.1] at hd]
      simp
    | false =>
      rw [if_pos ⟨hflag.mpr hd, hour, min⟩]
      simp only [Bool.not_false, Bool.and_self, if_true]
      omega
  · rename_i hdst
    rw [not_not, isdst_shown] at hdst
    rw [← Option.some.inj hr, hdst]
    simp

/-! ## One hour at the end of summer time -/

/-- Of two neighbouring types, the offset decreases by one hour from summer time or not at all. -/
def HourBack (a b : Localtime) : Prop :=
  b.gmtOffset < a.gmtOffset →
    a.gmtOffset - b.gmtOffset = 3600 ∧ a.isDst = true ∧ b.isDst = false

theorem spaced_of_hourBack (hgap : changes.IsChain fun x y => x.1 + 7200 ≤ y.1)
    (hback : (first :: changes.map Prod.snd).IsChain HourBack) :
    Spaced Localtime.gmtOffset first changes := by
  refine Spaced.of_neighbours fun pre x y post e => ?_
  subst e
  have hxy := List.isChain_iff_forall_rel_of_append_cons_cons.mp hgap rfl
  have hx := rel_last hback
  rw [List.append_cons] at hback
  have hy : HourBack (last first (pre ++ [x])) y.2 := rel_last hback
  rw [last_concat] at hy
  unfold HourBack at hx hy
  omega

/-- **The conversion back is exact** in a zone whose offset decreases only by one hour from summer
time to other time, with transitions two hours apart. -/
theorem fromLocalTime_toLocalTime (h : data.Describes first changes)
    (hgap : changes.IsChain fun x y => x.1 + 7200 ≤ y.1)
    (hback : (first :: changes.map Prod.snd).IsChain HourBack) (t : Int) :
    (∀ l r, toLocalTime ⟨some data⟩ t = some l → fromLocalTime ⟨some data⟩ l = some r → r = t) ∧
      (data.Named → ∃ l, toLocalTime ⟨some data⟩ t = some l ∧
        fromLocalTime ⟨some data⟩ l = some t) := by
  have hs := spaced_of_hourBack hgap hback
  have hexact : ∀ l r, toLocalTime ⟨some data⟩ t = some l →
      fromLocalTime ⟨some data⟩ l = some r → r = t := by
    intro l r hl hr
    rw [toLocalTime_shown h hs.sorted hl] at hr
    have hr := fromLocalTime_shown h hs rfl rfl hr
    rcases valueAt_shifted hs t with hsame | ⟨pre, x, post, e, hb⟩
    · rw [hsame] at hr
      simpa using hr
    · rw [hb.valueAt hs e, hb.valueAt_shifted hs e] at hr
      have := hb.before
      have := hb.again
      rw [e] at hback
      obtain ⟨hdiff, ha, hx⟩ := rel_last hback (by omega)
      rw [ha, hx] at hr
      simp only [Bool.not_false, Bool.and_self, if_true] at hr
      omega
  refine ⟨hexact, fun hn => ?_⟩
  obtain ⟨l, hl⟩ := toLocalTime_defined h.inRange hn t
  obtain ⟨r, hr⟩ := fromLocalTime_defined h.inRange hn l
  obtain rfl := hexact l r hl hr
  exact ⟨l, hl, hr⟩

theorem describes_newYork2020 : newYork2020.table.Describes ⟨-18000, false, 0⟩
    [(1583650800, ⟨-14400, true, 4⟩), (1604210400, ⟨-18000, false, 0⟩)] :=
  ⟨rfl, .cons ⟨rfl, rfl, rfl⟩ (.cons ⟨rfl, rfl, rfl⟩ .nil)⟩

theorem named_newYork2020 : newYork2020.table.Named := by
  refine Block.named_table.mpr (List.forall_mem_cons.mpr ⟨by decide, ?_⟩)
  exact List.forall_mem_singleton.mpr (by decide)

/-- The last second of summer time, one hour before the same wall clock. -/
theorem fromLocalTime_toLocalTime_newYork : ∃ l,
    toLocalTime ⟨some newYork2020.table⟩ 1604210399 = some l ∧
      fromLocalTime ⟨some newYork2020.table⟩ l = some 1604210399 :=
  (fromLocalTime_toLocalTime describes_newYork2020 (by simp) (by simp [HourBack]) _).2
    named_newYork2020

/-! ## Any change of the clock -/

/-- The same wall clock with the same flag. -/
def SameClock (l l' : Tm) : Prop :=
  l.year = l'.year ∧ l.mon = l'.mon ∧ l.mday = l'.mday ∧ l.hour = l'.hour ∧ l.min = l'.min ∧
    l.sec = l'.sec ∧ l.isdst = l'.isdst

instance (l l' : Tm) : Decidable (SameClock l l') := inferInstanceAs (Decidable (_ ∧ _))

/-- The conversion tells the two passes apart, or they look the same, before a transition from `a`
to `b` that puts the clock back. -/
def ToldApart (a b : Localtime) : Prop :=
  a.isDst = b.isDst ∨ a.isDst = true ∧ b.isDst = false ∧ a.gmtOffset - b.gmtOffset = 3600

/-- If `t` is in the time before a transition whose wall clock comes again, the transition is of
this kind. -/
def Recoverable (first : Localtime) (changes : List (Int × Localtime)) (t : Int) : Prop :=
  ∀ pre x post, changes = pre ++ x :: post → SetBack Localtime.gmtOffset first pre x t →
    ToldApart (last first pre) x.2

theorem sameClock_shown : SameClock (data.shown loc r) (data.shown c t) ↔
    r + loc.gmtOffset = t + c.gmtOffset ∧ loc.isDst = c.isDst := by
  unfold SameClock Data.shown
  constructor
  · rintro ⟨hyear, hmon, hmday, hhour, hmin, hsec, hdst⟩
    refine ⟨gmtime_inj hyear hmon hmday hhour hmin hsec, ?_⟩
    simp only at hdst
    cases hl : loc.isDst <;> cases hc : c.isDst <;> simp [hl, hc] at hdst ⊢
  · rintro ⟨ht, hdst⟩
    simp only [ht, hdst, and_self]

theorem recoverable_iff (hs : Spaced Localtime.gmtOffset first changes)
    (hc : valueAt first changes t = c)
    (hloc : valueAt first (shifted Localtime.gmtOffset changes) (t + c.gmtOffset) = loc) :
    Recoverable first changes t ↔ ToldApart c loc := by
  constructor
  · intro hrec
    rcases valueAt_shifted hs t with hsame | ⟨pre, x, post, e, hb⟩
    · rw [hc, hloc] at hsame
      exact .inl (by rw [hsame])
    · obtain rfl := (hb.valueAt hs e).symm.trans hc
      obtain rfl := (hb.valueAt_shifted hs e).symm.trans hloc
      exact hrec pre x post e hb
  · intro htold pre x post e hb
    obtain rfl := (hb.valueAt hs e).symm.trans hc
    obtain rfl := (hb.valueAt_shifted hs e).symm.trans hloc
    exact htold

/-- The description uses the types of the table. -/
theorem Data.Describes.mem (h : data.Describes first changes) :
    ∀ loc ∈ first :: changes.map Prod.snd, loc ∈ data.localtimes := by
  intro loc hloc
  rcases List.mem_cons.mp hloc with rfl | hloc
  · exact List.mem_of_head? h.first
  · obtain ⟨x, hx, rfl⟩ := List.mem_map.mp hloc
    obtain ⟨tr, -, htype, -⟩ := exists_of_forall₂ h.changes.flip hx
    exact List.mem_of_getElem? htype

theorem spaced_of_twoDays (h : data.Describes first changes)
    (hgap : changes.IsChain fun x y => x.1 + 172800 < y.1)
    (hoff : ∀ loc ∈ data.localtimes, -64800 ≤ loc.gmtOffset ∧ loc.gmtOffset ≤ 64800) :
    Spaced Localtime.gmtOffset first changes := by
  refine Spaced.of_neighbours fun pre x y post e => ?_
  have hbound : ∀ loc ∈ first :: changes.map Prod.snd,
      -64800 ≤ loc.gmtOffset ∧ loc.gmtOffset ≤ 64800 := fun loc hloc => hoff loc (h.mem loc hloc)
  subst e
  have hxy := List.isChain_iff_forall_rel_of_append_cons_cons.mp hgap rfl
  have hx := hbound x.2 (by simp)
  have hy := hbound y.2 (by simp)
  have hpre : last first pre ∈ first :: (pre ++ x :: y :: post).map Prod.snd := by
    rw [List.map_append, ← List.cons_append]
    exact List.mem_append_left _ last_mem
  have hlast := hbound _ hpre
  omega

/-- What is shown one hour before the second pass, at the end of summer time. -/
theorem sameClock_hourBefore (hs : Spaced Localtime.gmtOffset first changes)
    (hgap : changes.IsChain fun x y => x.1 + 172800 < y.1) (e : changes = pre ++ x :: post)
    (hb : SetBack Localtime.gmtOffset first pre x t) (ha : (last first pre).isDst = true)
    (hx : x.2.isDst = false)
    (hr : r = t + (last first pre).gmtOffset - x.2.gmtOffset - 3600) :
    SameClock (data.shown (valueAt first changes r) r) (data.shown (last first pre) t) ↔
      (last first pre).gmtOffset - x.2.gmtOffset = 3600 := by
  have hbefore := hb.before
  have hagain := hb.again
  rw [sameClock_shown]
  by_cases hrx : x.1 ≤ r
  · -- the hour does not lead back to before the transition
    rw [SetBack.valueAt_after hs e hrx (by omega), hx, ha]
    constructor
    · rintro ⟨-, hdst⟩
      cases hdst
    · omega
  · have hval : valueAt first changes r = last first pre := by
      have hsorted := hs.sorted
      rw [e] at hsorted hgap ⊢
      refine valueAt_split hsorted (fun y hy => ?_) fun y hy => Option.some.inj hy ▸ by omega
      have hyx := (List.isChain_append.mp hgap).2.2 y hy x rfl
      omega
    rw [hval]
    constructor
    · rintro ⟨ht, -⟩
      omega
    · exact fun hdiff => ⟨by omega, rfl⟩

/-- **When the conversion back gives the same wall clock and the same flag**, for transitions more
than two days apart and offsets of at most 18 hours. -/
theorem fromLocalTime_sameClock_iff (h : data.Describes first changes)
    (hgap : changes.IsChain fun x y => x.1 + 172800 < y.1)
    (hoff : ∀ loc ∈ data.localtimes, -64800 ≤ loc.gmtOffset ∧ loc.gmtOffset ≤ 64800) (t : Int) :
    (∀ l r l', toLocalTime ⟨some data⟩ t = some l → fromLocalTime ⟨some data⟩ l = some r →
      toLocalTime ⟨some data⟩ r = some l' → (SameClock l' l ↔ Recoverable first changes t)) ∧
      (data.Named → ∃ l r l', toLocalTime ⟨some data⟩ t = some l ∧
        fromLocalTime ⟨some data⟩ l = some r ∧ toLocalTime ⟨some data⟩ r = some l') := by
  have hs := spaced_of_twoDays h hgap hoff
  refine ⟨fun l r l' hl hr hl' => ?_, fun hn => ?_⟩
  · rw [toLocalTime_shown h hs.sorted hl] at hr ⊢
    rw [toLocalTime_shown h hs.sorted hl']
    have hr := fromLocalTime_shown h hs rfl rfl hr
    have hthen := valueAt_reading hs (k := t) rfl rfl
    rw [recoverable_iff hs rfl rfl]
    rcases valueAt_shifted hs t with hsame | ⟨pre, x, post, e, hb⟩
    · rw [hsame] at hr ⊢
      obtain rfl : r = t := by simpa using hr
      exact ⟨fun _ => .inl rfl, fun _ => sameClock_shown.mpr ⟨rfl, rfl⟩⟩
    · rw [hb.valueAt hs e, hb.valueAt_shifted hs e] at hr hthen ⊢
      unfold ToldApart
      cases ha : (last first pre).isDst <;> cases hx : x.2.isDst
      case true.false =>
        rw [ha, hx] at hr
        rw [sameClock_hourBefore hs hgap e hb ha hx (by simpa using hr)]
        simp
      all_goals
        rw [ha, hx] at hr
        simp only [Bool.not_true, Bool.not_false, Bool.and_false, Bool.and_true, Bool.false_eq_true,
          if_false, Int.sub_zero] at hr
        rw [hr, hthen, sameClock_shown, ha, hx]
        simp
  · obtain ⟨l, hl⟩ := toLocalTime_defined h.inRange hn t
    obtain ⟨r, hr⟩ := fromLocalTime_defined h.inRange hn l
    obtain ⟨l', hl'⟩ := toLocalTime_defined h.inRange hn r
    exact ⟨l, r, l', hl, hr, hl'⟩

theorem fromLocalTime_sameClock_newYork : ∃ l r l',
    toLocalTime ⟨some newYork2020.table⟩ 1604210399 = some l ∧
      fromLocalTime ⟨some newYork2020.table⟩ l = some r ∧
      toLocalTime ⟨some newYork2020.table⟩ r = some l' ∧ SameClock l' l := by
  have hgap : [((1583650800 : Int), (⟨-14400, true, 4⟩ : Localtime)),
      (1604210400, ⟨-18000, false, 0⟩)].IsChain fun x y => x.1 + 172800 < y.1 := by simp
  have hoff : ∀ loc ∈ newYork2020.table.localtimes,
      -64800 ≤ loc.gmtOffset ∧ loc.gmtOffset ≤ 64800 := by
    simp [newYork2020, Block.table, toLocaltime]
  obtain ⟨hiff, hdef⟩ := fromLocalTime_sameClock_iff describes_newYork2020 hgap hoff 1604210399
  obtain ⟨l, r, l', hl, hr, hl'⟩ := hdef named_newYork2020
  have hs := spaced_of_twoDays describes_newYork2020 hgap hoff
  have hrec := (recoverable_iff (t := 1604210399) hs rfl rfl).mpr (.inr ⟨rfl, rfl, rfl⟩)
  exact ⟨l, r, l', hl, hr, hl', (hiff l r l' hl hr hl').mpr hrec⟩

/-- The end of summer time in 2020 on Lord Howe Island, where the clock is put back half an hour. -/
def lordHowe2020 : Data where
  transitions := [⟨1586012400, 1586012400 + 37800, 1⟩]
  localtimes := [⟨39600, true, 0⟩, ⟨37800, false, 4⟩]
  abbreviation := Bytes.ascii "+11" ++ [0] ++ Bytes.ascii "+1030" ++ [0]

/-- Ten minutes before it the conversion back is half an hour early. -/
theorem fromLocalTime_halfHour : ∃ l r l',
    toLocalTime ⟨some lordHowe2020⟩ 1586011800 = some l ∧
      fromLocalTime ⟨some lordHowe2020⟩ l = some r ∧
      toLocalTime ⟨some lordHowe2020⟩ r = some l' ∧ r = 1586010000 ∧ ¬ SameClock l' l := by
  have hrun : ((toLocalTime ⟨some lordHowe2020⟩ 1586011800).bind fun l =>
      (fromLocalTime ⟨some lordHowe2020⟩ l).bind fun r =>
        (toLocalTime ⟨some lordHowe2020⟩ r).map fun l' => (r, decide (SameClock l' l))) =
      some (1586010000, false) := by decide +kernel
  obtain ⟨l, hl, hrun⟩ := Option.bind_eq_some_iff.mp hrun
  obtain ⟨r, hr, hrun⟩ := Option.bind_eq_some_iff.mp hrun
  obtain ⟨l', hl', hrun⟩ := Option.map_eq_some_iff.mp hrun
  obtain ⟨h1, h2⟩ := Prod.mk.inj hrun
  exact ⟨l, r, l', hl, hr, hl', h1, of_decide_eq_false h2⟩

end TimeZone

end MultiThreadLog
