import MultiThreadLog.Lib.Monitor
import MultiThreadLog.LogFile.Contents

/-!
# A `LogFile` shared by threads

With `threadSafe` set, `append` and `flush` hold `mutex_` while they work (`LogFile.cc`). The work
is split here as finely as the code reads and writes: every call of `fwrite_unlocked` is a step,
then the counter, the decision, the roll. A call brings along what it will get from outside, the
answers of `fwrite_unlocked` and the clock readings.

Each call alone is the `append` or `flush` of `LogFile` (`runs_perform`), so by the rules of
`Lib/Monitor.lean` threads that share the object see it do one call after another
(`calls_one_by_one`).
-/

namespace MultiThreadLog

open Bytes

namespace LogFile

/-- A call of `append` or `flush`. -/
inductive Request where
  | append (logline : List UInt8) (len : Nat) (rs : List FwriteResult) (now now' : Int)
  | flush

def perform (proc : Process) (l : LogFile) : Request → Option LogFile
  | .append logline len rs now now' => l.append proc logline len rs now now'
  | .flush => l.flush

/-- Where a call is that has the mutex. -/
inductive Stage where
  /-- The loop of `AppendFile::append`. -/
  | write (logline : List UInt8) (len written : Nat) (rs : List FwriteResult) (now now' : Int)
  /-- `writenBytes_ += len`. -/
  | count (len : Nat) (now now' : Int)
  /-- `isNeedRollFile()`. -/
  | decide (now now' : Int)
  | roll (now' : Int)
  | flush

def Stage.ofRequest : Request → Stage
  | .append logline len rs now now' => .write logline len 0 rs now now'
  | .flush => .flush

/-- One step of a call. -/
def stageStep (proc : Process) (l : LogFile) : Stage → Option (LogFile × Option Stage)
  | .write logline len written rs now now' => l.file.bind fun f =>
    if written = len then some (l, some (.count len now now'))
    else match rs with
      | [] => none
      | r :: rs =>
        let remain := len - written
        let n := min r.accepted remain
        let l := { l with
          file := some { f with content := f.content ++ (logline.drop written).take n } }
        if n ≠ remain ∧ r.error then some (l, some (.count len now now'))
        else some (l, some (.write logline len (written + n) rs now now'))
  | .count len now now' => l.file.map fun f =>
    ({ l with file := some { f with writenBytes := f.writenBytes + len } },
      some (.decide now now'))
  | .decide now now' => (l.isNeedRollFile now).map fun r =>
    (r.1, if r.2 then some (.roll now') else none)
  | .roll now' => some ((rollFile proc l now').1, none)
  | .flush => l.flush.map fun l => (l, none)

/-- The calls as operations under `mutex_`. -/
def work (proc : Process) : Monitor.Work LogFile Stage Request := ⟨.ofRequest, stageStep proc⟩

/-! ## A call alone -/

/-- The decision, and the roll it asks for. -/
def decided (proc : Process) (now now' : Int) (l : LogFile) : Option LogFile :=
  (l.isNeedRollFile now).map fun r => if r.2 then (rollFile proc r.1 now').1 else r.1

/-- What is left of a call, in terms of the functions of `LogFile`. -/
def rest (proc : Process) : Option Stage → LogFile → Option LogFile
  | some (.write logline len written rs now now'), l => l.file.bind fun f =>
    (AppendFile.appendLoop logline len written f.content rs).bind fun c =>
      decided proc now now'
        { l with file := some { f with content := c, writenBytes := f.writenBytes + len } }
  | some (.count len now now'), l => l.file.bind fun f =>
    decided proc now now' { l with file := some { f with writenBytes := f.writenBytes + len } }
  | some (.decide now now'), l => decided proc now now' l
  | some (.roll now'), l => some (rollFile proc l now').1
  | some .flush, l => l.flush
  | none, l => some l

variable {proc : Process} {l l' : LogFile} {f : AppendFile} {k : Stage} {k' : Option Stage}
  {now now' : Int}

theorem rest_write (hf : l.file = some f) (logline : List UInt8) (len written : Nat)
    (rs : List FwriteResult) :
    rest proc (some (.write logline len written rs now now')) l =
      (AppendFile.appendLoop logline len written f.content rs).bind fun c =>
        decided proc now now'
          { l with file := some { f with content := c, writenBytes := f.writenBytes + len } } := by
  show l.file.bind _ = _
  rw [hf, Option.bind_some]

theorem rest_count (hf : l.file = some f) (len : Nat) :
    rest proc (some (.count len now now')) l =
      decided proc now now' { l with
        file := some { f with writenBytes := f.writenBytes + len } } := by
  show l.file.bind _ = _
  rw [hf, Option.bind_some]

/-- **One step** of a call does not change what is left of it. -/
theorem rest_step (h : stageStep proc l k = some (l', k')) :
    rest proc (some k) l = rest proc k' l' := by
  cases k with
  | write logline len written rs now now' =>
    obtain ⟨f, hf, h⟩ := Option.bind_eq_some_iff.mp h
    rw [rest_write hf]
    by_cases hw : written = len
    · rw [if_pos hw] at h
      cases h
      have hloop : AppendFile.appendLoop logline len written f.content rs = some f.content := by
        cases rs <;> exact if_pos hw
      rw [hloop, Option.bind_some, rest_count hf]
    · rw [if_neg hw] at h
      cases rs with
      | nil => cases h
      | cons r rs =>
        unfold AppendFile.appendLoop
        rw [if_neg hw]
        dsimp only at h ⊢
        split at h
        · -- the error branch leaves the loop with the counter still to be added
          rename_i herr
          cases h
          rw [if_pos herr, Option.bind_some, rest_count rfl]
        · rename_i herr
          cases h
          rw [if_neg herr, rest_write rfl]
  | count len now now' =>
    obtain ⟨f, hf, h⟩ := Option.map_eq_some_iff.mp h
    cases h
    rw [rest_count hf]
    rfl
  | decide now now' =>
    obtain ⟨r, hr, h⟩ := Option.map_eq_some_iff.mp h
    cases h
    show decided proc now now' l = _
    unfold decided
    rw [hr, Option.map_some]
    cases r.2 <;> rfl
  | roll now' =>
    cases h
    rfl
  | flush =>
    obtain ⟨l1, hl, h⟩ := Option.map_eq_some_iff.mp h
    cases h
    exact hl

/-- **A call alone** is the function of `LogFile`. -/
theorem runs_perform (o : Request) (h : (work proc).Runs o l l') :
    perform proc l o = some l' := by
  have hrest : rest proc (some (Stage.ofRequest o)) l = rest proc none l' :=
    h.rest fun _ _ _ _ hn => rest_step hn
  refine Eq.trans ?_ hrest
  cases o with
  | append logline len rs now now' =>
    show l.append proc logline len rs now now' = rest proc (some (.write ..)) l
    cases hf : l.file with
    | none =>
      show _ = l.file.bind _
      rw [append, hf]
      rfl
    | some f =>
      rw [append_eq hf, rest_write hf, AppendFile.append]
      cases AppendFile.appendLoop logline len 0 f.content rs <;> rfl
  | flush => rfl

/-! ## Threads -/

/-- The message is the whole text, and no answer of `fwrite_unlocked` reports an error. Short
counts without the error flag are retried. -/
def Request.Accepted : Request → Prop
  | .append logline len rs _ _ => len = logline.length ∧ ∀ r ∈ rs, r.error = false
  | .flush => True

def Request.op : Request → Op
  | .append logline _ _ now now' => .append logline now now'
  | .flush => .flush

/-- The loop writes a first part of what it is to write, and all of it if no write fails. -/
theorem appendLoop_part {logline content c : List UInt8} {len written : Nat}
    {rs : List FwriteResult} (hw : written ≤ len)
    (h : AppendFile.appendLoop logline len written content rs = some c) :
    ∃ n, written + n ≤ len ∧ c = content ++ (logline.drop written).take n ∧
      ((∀ r ∈ rs, r.error = false) → written + n = len) := by
  by_cases hdone : written = len
  · have hc : some content = some c := by
      rw [← h]
      cases rs <;> exact (if_pos hdone).symm
    cases hc
    exact ⟨0, by omega, by simp, fun _ => by omega⟩
  induction rs generalizing written content with
  | nil =>
    unfold AppendFile.appendLoop at h
    rw [if_neg hdone] at h
    cases h
  | cons r rs ih =>
    have hmin : min r.accepted (len - written) ≤ len - written := Nat.min_le_right ..
    unfold AppendFile.appendLoop at h
    rw [if_neg hdone] at h
    dsimp only at h
    split at h
    · rename_i hfail
      cases h
      refine ⟨min r.accepted (len - written), by omega, rfl, fun hrs => ?_⟩
      rw [hrs r List.mem_cons_self] at hfail
      exact absurd hfail.2 (by decide)
    · by_cases hnext : written + min r.accepted (len - written) = len
      · have hc : some (content ++ (logline.drop written).take (min r.accepted (len - written))) =
            some c := by
          rw [← h]
          cases rs <;> exact (if_pos hnext).symm
        cases hc
        exact ⟨_, by omega, rfl, fun _ => hnext⟩
      · obtain ⟨n, hn, rfl, hall⟩ := ih (by omega) h hnext
        refine ⟨min r.accepted (len - written) + n, by omega, ?_, fun hrs => ?_⟩
        · rw [List.take_add, List.drop_drop, List.append_assoc]
        · have := hall fun x hx => hrs x (List.mem_cons_of_mem _ hx)
          omega

/-- A call that is accepted and returns does what a stream that accepts everything gives. -/
theorem step_of_perform {o : Request} (ho : o.Accepted) (h : perform proc l o = some l') :
    step proc l o.op = some l' := by
  cases o with
  | append logline len rs now now' =>
    obtain ⟨rfl, hrs⟩ := ho
    cases hf : l.file with
    | none =>
      unfold perform append at h
      rw [hf] at h
      cases h
    | some f =>
      obtain ⟨f1, hf1, h⟩ := Option.bind_eq_some_iff.mp ((append_eq hf ..).symm.trans h)
      obtain ⟨c, hc, rfl⟩ := Option.map_eq_some_iff.mp hf1
      obtain ⟨n, -, rfl, hall⟩ := appendLoop_part (Nat.zero_le _) hc
      rw [List.drop_zero, List.take_of_length_le (by have := hall hrs; omega)] at h
      exact (append_acceptAll hf logline now now').trans h
  | flush => exact h

/-- What a call gives to the files: a first part of its text, the whole if no write fails. -/
def Request.Part : Request → List (List UInt8) → Prop
  | .append logline len rs _ _, ps => ∃ p, ps = [p] ∧ p <+: logline.take len ∧
    ((∀ r ∈ rs, r.error = false) → p = logline.take len)
  | .flush, ps => ps = []

variable {gs : List (List (List UInt8))} {g : List (List UInt8)}

/-- The decision and the roll leave what the files hold. -/
theorem Holds.decided (h : Holds proc l f gs g) (hs : decided proc now now' l = some l') :
    ∃ f' gs' g', gs'.flatten ++ g' = gs.flatten ++ g ∧ Holds proc l' f' gs' g' := by
  obtain ⟨r, hr, hs⟩ := Option.map_eq_some_iff.mp hs
  obtain ⟨f1, h1⟩ : ∃ f1, Holds proc r.1 f1 gs g := by
    rcases isNeedRollFile_cases h.file with ⟨-, e⟩ | ⟨-, -, e⟩ | ⟨-, -, -, e⟩ | ⟨-, -, -, -, e⟩ |
      ⟨-, -, -, -, e⟩ <;>
      (rw [e] at hr; cases hr)
    · exact ⟨f, h⟩
    · exact ⟨f, h.rewrite h.file rfl rfl rfl rfl rfl h.current⟩
    · exact ⟨f, h.rewrite h.file rfl rfl rfl rfl rfl h.current⟩
    · exact ⟨f.flush, h.rewrite rfl rfl rfl rfl rfl rfl h.current⟩
    · exact ⟨f, h.rewrite h.file rfl rfl rfl rfl rfl h.current⟩
  split at hs
  · cases hs
    exact h1.rollFile now'
  · cases hs
    exact ⟨f1, gs, g, rfl, h1⟩

/-- **One call**, whatever the stream answers. -/
theorem Holds.perform (h : Holds proc l f gs g) {o : Request} (hs : perform proc l o = some l') :
    ∃ ps f' gs' g', o.Part ps ∧ gs'.flatten ++ g' = gs.flatten ++ g ++ ps ∧
      Holds proc l' f' gs' g' := by
  cases o with
  | append logline len rs now now' =>
    obtain ⟨f1, hf1, hs⟩ := Option.bind_eq_some_iff.mp ((append_eq h.file ..).symm.trans hs)
    obtain ⟨c, hc, rfl⟩ := Option.map_eq_some_iff.mp hf1
    obtain ⟨n, hn, rfl, hall⟩ := appendLoop_part (Nat.zero_le _) hc
    rw [Nat.zero_add] at hn hall
    rw [List.drop_zero] at hs
    have hw : Holds proc { l with file := some { f with
        content := f.content ++ logline.take n, writenBytes := f.writenBytes + len } } _ gs
        (g ++ [logline.take n]) :=
      h.rewrite rfl rfl rfl rfl rfl rfl (by simp [h.current])
    obtain ⟨f', gs', g', e, h'⟩ := hw.decided hs
    refine ⟨[logline.take n], f', gs', g', ⟨_, rfl, ?_, fun hrs => by rw [hall hrs]⟩, ?_, h'⟩
    · exact List.take_prefix_take_left hn
    · rw [e, List.append_assoc]
  | flush =>
    obtain ⟨l1, f', gs', g', hs', e, h'⟩ := h.step .flush
    obtain rfl : l1 = l' := Option.some_inj.mp (hs'.symm.trans hs)
    exact ⟨[], f', gs', g', rfl, e, h'⟩

theorem Holds.exec_perform (h : Holds proc l f gs g) {os : List Request}
    (he : Lts.exec (LogFile.perform proc) l os = some l') :
    ∃ parts f' gs' g', List.Forall₂ Request.Part os parts ∧
      gs'.flatten ++ g' = gs.flatten ++ g ++ parts.flatten ∧ Holds proc l' f' gs' g' := by
  induction os generalizing l f gs g with
  | nil =>
    cases he
    exact ⟨[], f, gs, g, .nil, by simp, h⟩
  | cons o os ih =>
    obtain ⟨u, hu, he⟩ := Lts.exec_cons he
    obtain ⟨ps, f1, gs1, g1, hps, e1, h1⟩ := h.perform hu
    obtain ⟨parts, f2, gs2, g2, hparts, e2, h2⟩ := ih h1 he
    refine ⟨ps :: parts, f2, gs2, g2, .cons hps hparts, ?_, h2⟩
    rw [e2, e1, List.flatten_cons, List.append_assoc]

/-- What threads that share an object see of it: calls made one after another, in the order they got
the mutex. -/
structure OneByOne {ι : Type} [DecidableEq ι] (proc : Process) (l0 : LogFile)
    (acts : List (Monitor.Act Request ι)) (s : Monitor.State LogFile Stage Request ι) : Prop where
  /-- The order keeps the order of each thread's calls. -/
  program : ∀ i, Monitor.calls i acts = s.enteredBy i ++ (s.place i).waiting
  /-- Later steps only add to the order. -/
  realTime : ∀ before after u, acts = before ++ after →
    Lts.exec (Monitor.step (work proc)) (Monitor.init l0) before = some u → u.entered <+: s.entered
  sequential : s.owner = none →
    Lts.exec (perform proc) l0 (s.entered.map Prod.snd) = some s.shared
  /-- The files hold the parts of the calls in that order, none of them in two files. -/
  contents : s.owner = none →
    ∃ parts groups : List (List (List UInt8)),
      List.Forall₂ Request.Part (s.entered.map Prod.snd) parts ∧ groups.flatten = parts.flatten ∧
      s.shared.opened.map AppendFile.content = groups.map List.flatten

/-- **A shared `LogFile`**, in every interleaving of the steps of its callers. -/
theorem calls_one_by_one {ι : Type} [DecidableEq ι] (proc : Process) (basename : List UInt8)
    (rollSize flushInterval checkEveryN now : Int) (hnow : 0 < now)
    (acts : List (Monitor.Act Request ι)) (s : Monitor.State LogFile Stage Request ι)
    (h : Lts.exec (Monitor.step (work proc))
      (Monitor.init (new proc basename rollSize flushInterval checkEveryN now)) acts = some s) :
    OneByOne proc (new proc basename rollSize flushInterval checkEveryN now) acts s where
  program := Monitor.calls_eq h
  realTime before after u e hu := by
    rw [e, Lts.exec_append, hu] at h
    exact Monitor.entered_prefix h
  sequential hfree := ((Monitor.inv_exec h).free hfree).exec fun o _ _ => runs_perform o
  contents hfree := by
    have hseq := ((Monitor.inv_exec h).free hfree).exec fun o _ _ => runs_perform o
    obtain ⟨parts, f, gs, g, hparts, e, hl⟩ :=
      (holds_new basename rollSize flushInterval checkEveryN hnow).exec_perform hseq
    exact ⟨parts, gs ++ [g], hparts, by simpa using e,
      by simp [hl.opened_eq, hl.closed, hl.current]⟩

/-- The second thread calls `flush` while the first is in the loop of `AppendFile::append`. -/
def overlap : List (Monitor.Act Request Bool) :=
  [.call true (.append (ascii "abc") 3 [⟨1, false⟩, ⟨2, false⟩] 86400 86401), .enter true,
    .work true, .call false .flush, .work true, .work true, .work true, .work true, .work true,
    .leave true, .enter false, .work false, .leave false]

theorem calls_one_by_one_overlap :
    ∃ s, Lts.exec (Monitor.step (work ⟨ascii "host", 7⟩))
        (Monitor.init (new ⟨ascii "host", 7⟩ (ascii "test") 2 3 1 86400)) overlap = some s ∧
      s.owner = none ∧
      OneByOne ⟨ascii "host", 7⟩ (new ⟨ascii "host", 7⟩ (ascii "test") 2 3 1 86400) overlap s :=
  ⟨_, rfl, rfl, calls_one_by_one ⟨ascii "host", 7⟩ (ascii "test") 2 3 1 86400 (by decide) overlap _
    rfl⟩

end LogFile

end MultiThreadLog
