import MultiThreadLog.AsyncLogging.Delivery

/-!
# Old bytes in recycled and fresh buffers

`reset()` and `new Buffer` leave old bytes behind, and `strcpy` copies only up to the first NUL
while the length grows by `len`. As long as every message reaches its `len` with the terminator
(`Msg.Whole`), what lies below `cur_` is the messages alone: two runs of one schedule agree on
the texts of all buffers, and on what is written. `stale_bytes` is a run with a NUL inside a
message, where the bytes of an older record are written.
-/

namespace MultiThreadLog

open Bytes

/-- None of the bytes before the last is zero. -/
def Msg.ZeroFree (m : Msg) : Prop := ∀ b ∈ m.logline.dropLast, b ≠ 0

instance (m : Msg) : Decidable m.ZeroFree := List.decidableBAll _ m.logline.dropLast

/-- Then `strcpy` copies the bytes, and the NUL behind them if the last is not one itself. -/
theorem Msg.ZeroFree.copied {m : Msg} (h : m.ZeroFree) (hlen : m.logline.length = m.len) :
    m.len ≤ strlen m.logline + 1 ∧ m.text = m.logline := by
  obtain ⟨logline, len⟩ := m
  replace hlen : logline.length = len := hlen
  subst hlen
  rcases List.eq_nil_or_concat logline with rfl | ⟨d, x, rfl⟩
  · exact ⟨Nat.zero_le _, rfl⟩
  · have hd : ∀ b ∈ d, (decide (b ≠ 0)) = true := by simpa [Msg.ZeroFree] using h
    have hc : cstr (d ++ [x]) = d ++ cstr [x] := List.takeWhile_append_of_pos hd
    by_cases hx : x = 0
    · have hx' : cstr [x] = [] := by rw [hx]; rfl
      refine ⟨?_, ?_⟩
      · rw [strlen, List.concat_eq_append, hc, hx']
        simp
      · rw [Msg.text, List.concat_eq_append, hc, hx', hx]
        simp
    · have hx' : cstr [x] = [x] := cstr_eq_self (by simpa using hx)
      refine ⟨?_, ?_⟩
      · rw [strlen, List.concat_eq_append, hc, hx']
        simp
      · rw [Msg.text, List.concat_eq_append, hc, hx', List.take_left]

namespace AsyncLogging

/-! ## Two runs of one schedule -/

/-- The same step, with other storage from `operator new`. -/
inductive SameStep : Act → Act → Prop where
  | append (m : Msg) (fresh fresh' : Fresh) : SameStep (.append m fresh) (.append m fresh')
  | setup (fresh1 fresh2 fresh1' fresh2' : Fresh) :
      SameStep (.setup fresh1 fresh2) (.setup fresh1' fresh2')
  | same (a : Act) : SameStep a a

/-- Equal but for addresses and for the bytes behind the texts. -/
structure Agree (s s' : AsyncLogging) : Prop where
  running : s.running = s'.running
  latch : s.latch = s'.latch
  current : s.currentBuffer.map Buffer.toString = s'.currentBuffer.map Buffer.toString
  next : s.nextBuffer.map Buffer.toString = s'.nextBuffer.map Buffer.toString
  queued : s.buffers.map Buffer.toString = s'.buffers.map Buffer.toString
  new1 : s.newBuffer1.map Buffer.toString = s'.newBuffer1.map Buffer.toString
  new2 : s.newBuffer2.map Buffer.toString = s'.newBuffer2.map Buffer.toString
  batch : s.buffersToWrite.map Buffer.toString = s'.buffersToWrite.map Buffer.toString
  output : s.output = s'.output
  pc : s.pc = s'.pc
  owner : s.owner = s'.owner

variable {s s' t t' : AsyncLogging} {b b' c c' : Buffer} {m : Msg}

theorem avail_congr (h : b.toString = c.toString) : b.avail = c.avail := by
  have hlen : b.buf.toString.length = c.buf.toString.length := congrArg List.length h
  rw [FixedBuffer.length_toString, FixedBuffer.length_toString] at hlen
  have hb : b.buf.avail + b.buf.length = kLargeBuffer := b.buf.avail_add_length
  have hc : c.buf.avail + c.buf.length = kLargeBuffer := c.buf.avail_add_length
  show b.buf.avail = c.buf.avail
  omega

/-- What a whole message adds does not depend on what lay in the buffer. -/
theorem append_congr (h : b.toString = c.toString) (hm : m.Whole)
    (hb : b.append m.logline m.len = some b') (hc : c.append m.logline m.len = some c') :
    b'.toString = c'.toString := by
  have havail := avail_congr h
  by_cases hlen : m.len < b.avail
  · rw [toString_append hb hlen hm, toString_append hc (havail ▸ hlen) hm, h]
  · have same : ∀ d d' : Buffer, d.avail ≤ m.len → d.append m.logline m.len = some d' → d' = d := by
      intro d d' hd happ
      rw [Buffer.append, FixedBuffer.append_rejected hd] at happ
      exact (Option.some.inj happ).symm
    rw [same b b' (by omega) hb, same c c' (by omega) hc, h]

theorem some_of_map_eq {o o' : Option Buffer}
    (h : o.map Buffer.toString = o'.map Buffer.toString) (hb : o = some b) :
    ∃ c, o' = some c ∧ b.toString = c.toString := by
  rw [hb, Option.map_some] at h
  obtain ⟨c, hc, e⟩ := Option.map_eq_some_iff.mp h.symm
  exact ⟨c, hc, e.symm⟩

theorem none_of_map_eq {o o' : Option Buffer}
    (h : o.map Buffer.toString = o'.map Buffer.toString) (ho : o = none) : o' = none := by
  rw [ho, Option.map_none] at h
  exact Option.map_eq_none_iff.mp h.symm

theorem length_of_map_eq {l l' : List Buffer}
    (h : l.map Buffer.toString = l'.map Buffer.toString) : l.length = l'.length := by
  have := congrArg List.length h
  simpa using this

theorem Agree.batch_take (h : Agree s s') :
    (s.buffersToWrite.take 2).map Buffer.toString =
      (s'.buffersToWrite.take 2).map Buffer.toString := by
  rw [List.map_take, List.map_take, h.batch]

theorem Agree.batch_dropLast (h : Agree s s') :
    s.buffersToWrite.dropLast.map Buffer.toString =
      s'.buffersToWrite.dropLast.map Buffer.toString := by
  rw [List.map_dropLast, List.map_dropLast, h.batch]

theorem Agree.append {fresh fresh' : Fresh} (h : Agree s s') (hm : m.Whole)
    (hs : Move s (.append m fresh) t) (hs' : Move s' (.append m fresh') t') : Agree t t' := by
  cases hs with
  | @put _ _ b b1 _ hb hlen happ =>
    obtain ⟨c, hc, e⟩ := some_of_map_eq h.current hb
    cases hs' with
    | @put _ _ c' c1 _ hc' hlen' happ' =>
      rw [hc] at hc'
      cases hc'
      refine ⟨h.running, h.latch, ?_, h.next, h.queued, h.new1, h.new2, h.batch, h.output, h.pc,
        h.owner⟩
      exact congrArg some (append_congr e hm happ happ')
    | @roll _ _ c' d d1 _ hc' hlen' =>
      rw [hc] at hc'
      cases hc'
      have := avail_congr e
      omega
  | @roll _ _ b d d1 _ hb hlen hd happ =>
    obtain ⟨c, hc, e⟩ := some_of_map_eq h.current hb
    cases hs' with
    | @put _ _ c' c1 _ hc' hlen' =>
      rw [hc] at hc'
      cases hc'
      have := avail_congr e
      omega
    | @roll _ _ c' d' d1' _ hc' hlen' hd' happ' =>
      rw [hc] at hc'
      cases hc'
      have hdd : d.toString = d'.toString := by
        rcases hd with hd | ⟨hn, hd⟩
        · obtain ⟨x, hx, ex⟩ := some_of_map_eq h.next hd
          rcases hd' with hd' | ⟨hn', -⟩
          · rw [hx] at hd'
            cases hd'
            exact ex
          · rw [hx] at hn'
            cases hn'
        · have hn' := none_of_map_eq h.next hn
          rcases hd' with hd' | ⟨-, hd'⟩
          · rw [hn'] at hd'
            cases hd'
          · rw [(held_alloc (a := 0) hd).1, (held_alloc (a := 0) hd').1]
            rfl
      refine ⟨h.running, h.latch, congrArg some (append_congr hdd hm happ happ'), rfl, ?_, h.new1,
        h.new2, h.batch, h.output, congrArg Pc.signalled h.pc, h.owner⟩
      simp only [List.map_append, h.queued, List.map_singleton, e]

theorem Agree.setup {fresh1 fresh2 fresh1' fresh2' : Fresh} (h : Agree s s')
    (hs : Move s (.setup fresh1 fresh2) t) (hs' : Move s' (.setup fresh1' fresh2') t') :
    Agree t t' := by
  have zeroed : ∀ b : Buffer, b.bzero.toString = [] := fun b =>
    FixedBuffer.toString_of_length rfl
  cases hs with
  | setup hp h1 h2 =>
    cases hs' with
    | setup hp' h1' h2' =>
      refine ⟨h.running, h.latch, h.current, h.next, h.queued, ?_, ?_, h.batch, h.output, rfl,
        h.owner⟩
      · simp only [Option.map_some, zeroed]
      · simp only [Option.map_some, zeroed]

theorem Agree.swap (h : Agree s s') (hs : Move s .swap t) (hs' : Move s' .swap t') :
    Agree t t' := by
  cases hs with
  | @swap b hp hb =>
    cases hs' with
    | @swap c hp' hc =>
      obtain ⟨c', hc', e⟩ := some_of_map_eq h.current hb
      rw [hc] at hc'
      cases hc'
      have hsome : s.nextBuffer.isSome = s'.nextBuffer.isSome := by
        have := congrArg Option.isSome h.next
        simpa using this
      refine ⟨h.running, h.latch, h.new1, ?_, h.batch, rfl, ?_, ?_, h.output, rfl, h.owner⟩
      · cases hn : s.nextBuffer with
        | none =>
          rw [none_of_map_eq h.next hn]
          exact h.new2
        | some d =>
          obtain ⟨d', hd', ed⟩ := some_of_map_eq h.next hn
          rw [hd']
          exact congrArg some ed
      · rw [hsome]
        split
        · exact h.new2
        · rfl
      · simp only [List.map_append, h.queued, List.map_singleton, e]

/-- The loop over the batch is at the same buffer, or at the end, in both runs. -/
theorem Agree.write (h : Agree s s') (hs : Move s .write t) (hs' : Move s' .write t') :
    Agree t t' := by
  have hlen := length_of_map_eq h.batch
  have same : ∀ k k', s.pc = .write k → s'.pc = .write k' → k = k' := by
    intro k k' hp hp'
    have := h.pc
    rw [hp, hp'] at this
    exact Pc.write.inj this
  cases hs with
  | @write k b hp hb =>
    have hk := (List.getElem?_eq_some_iff.mp hb).1
    cases hs' with
    | @write k' b' hp' hb' =>
      obtain rfl := same k k' hp hp'
      have hget := congrArg (fun l => l[k]?) h.batch
      have htext : b.toString = b'.toString := by
        simpa only [List.getElem?_map, hb, hb', Option.map_some, Option.some.injEq] using hget
      exact { h with output := by rw [h.output, htext], pc := rfl }
    | @written k' hp' hk' =>
      obtain rfl := same k k' hp hp'
      omega
  | @written k hp hk =>
    cases hs' with
    | @write k' b' hp' hb' =>
      obtain rfl := same k k' hp hp'
      have hk' := (List.getElem?_eq_some_iff.mp hb').1
      omega
    | written => exact { h with pc := rfl }

theorem reset_text (b : Buffer) : b.reset.toString = [] := FixedBuffer.toString_of_length rfl

/-- The last buffer of the batch is given back, in both runs or in none. -/
theorem Agree.recycle1 (h : Agree s s') (hs : Move s .recycle1 t) (hs' : Move s' .recycle1 t') :
    Agree t t' := by
  cases hs with
  | has1 hp h1 =>
    cases hs' with
    | has1 => exact { h with pc := rfl }
    | recycle1 hp' h1' => exact absurd (none_of_map_eq h.new1.symm h1') h1
  | recycle1 hp h1 hb =>
    cases hs' with
    | has1 hp' h1' => exact absurd (none_of_map_eq h.new1 h1) h1'
    | recycle1 =>
      exact { h with
        new1 := by simp only [Option.map_some, reset_text]
        batch := h.batch_dropLast
        pc := rfl }

theorem Agree.recycle2 (h : Agree s s') (hs : Move s .recycle2 t) (hs' : Move s' .recycle2 t') :
    Agree t t' := by
  cases hs with
  | has2 hp h2 =>
    cases hs' with
    | has2 => exact { h with pc := rfl }
    | recycle2 hp' h2' => exact absurd (none_of_map_eq h.new2.symm h2') h2
  | recycle2 hp h2 hb =>
    cases hs' with
    | has2 hp' h2' => exact absurd (none_of_map_eq h.new2 h2) h2'
    | recycle2 =>
      exact { h with
        new2 := by simp only [Option.map_some, reset_text]
        batch := h.batch_dropLast
        pc := rfl }

/-- **One step of both runs.** -/
theorem Agree.step {a a' : Act} (h : Agree s s') (ha : SameStep a a')
    (hm : ∀ m ∈ a.messages, m.Whole) (hs : Move s a t) (hs' : Move s' a' t') : Agree t t' := by
  cases ha with
  | append m fresh fresh' => exact h.append (hm m (by simp [Act.messages])) hs hs'
  | setup => exact h.setup hs hs'
  | same =>
    cases a with
    | append m fresh => exact h.append (hm m (by simp [Act.messages])) hs hs'
    | setup => exact h.setup hs hs'
    | swap => exact h.swap hs hs'
    | start | started | stop | clearRunning | notify | join | countDown | lock | wait | wake =>
      cases hs
      cases hs'
      exact ⟨by simp [h.running], by simp [h.latch], h.current, h.next, h.queued, h.new1, h.new2,
        h.batch, h.output, by simp [h.pc], by simp [h.owner]⟩
    | test =>
      cases hs with
      | enter hp hr =>
        cases hs' with
        | enter => exact { h with pc := rfl }
        | exit hp' hr' => rw [h.running, hr'] at hr; cases hr
      | exit hp hr =>
        cases hs' with
        | enter hp' hr' => rw [h.running, hr'] at hr; cases hr
        | exit =>
          exact { h with
            new1 := rfl
            new2 := rfl
            batch := rfl
            output := by rw [h.output]
            pc := rfl }
    | check =>
      have hlen := length_of_map_eq h.queued
      cases hs with
      | empty hp hq =>
        cases hs' with
        | empty => exact { h with pc := rfl }
        | nonempty hp' hq' =>
          rw [hq] at hlen
          exact absurd (List.length_eq_zero_iff.mp hlen.symm) hq'
      | nonempty hp hq =>
        cases hs' with
        | empty hp' hq' =>
          rw [hq'] at hlen
          exact absurd (List.length_eq_zero_iff.mp hlen) hq
        | nonempty => exact { h with pc := rfl }
    | trim now =>
      have hlen := length_of_map_eq h.batch
      cases hs with
      | drop hp hcut =>
        cases hs' with
        | drop =>
          exact { h with batch := h.batch_take, output := by rw [h.output, hlen], pc := rfl }
        | keep hp' hne hkeep => omega
      | keep hp hne hkeep =>
        cases hs' with
        | drop hp' hcut => omega
        | keep => exact { h with pc := rfl }
    | write => exact h.write hs hs'
    | resize =>
      cases hs
      cases hs'
      exact { h with batch := h.batch_take, pc := rfl }
    | recycle1 => exact h.recycle1 hs hs'
    | recycle2 => exact h.recycle2 hs hs'
    | clear =>
      cases hs
      cases hs'
      exact { h with batch := rfl, output := by rw [h.output], pc := rfl }

theorem agree_new (fresh1 fresh2 fresh1' fresh2' : Fresh) :
    Agree (new fresh1 fresh2) (new fresh1' fresh2') :=
  ⟨rfl, rfl, rfl, rfl, rfl, rfl, rfl, rfl, rfl, rfl, rfl⟩

/-- The condition on each step that `Agree.step` needs. -/
def SameWhole (a a' : Act) : Prop := SameStep a a' ∧ ∀ m ∈ a.messages, m.Whole

/-- **Two runs** of one schedule, over whole messages, agree. -/
theorem agree_exec {fresh1 fresh2 fresh1' fresh2' : Fresh} {acts acts' : List Act}
    (hsame : List.Forall₂ SameStep acts acts') (hm : ∀ m ∈ messages acts, m.Whole)
    (he : Lts.exec step (new fresh1 fresh2) acts = some s)
    (he' : Lts.exec step (new fresh1' fresh2') acts' = some s') : Agree s s' := by
  have hboth : List.Forall₂ SameWhole acts acts' := by
    clear he he'
    induction hsame with
    | nil => exact .nil
    | cons ha _ ih =>
      refine .cons ⟨ha, fun m h => hm m ?_⟩ (ih fun m h => hm m ?_)
      · exact List.mem_append_left _ h
      · exact List.mem_append_right _ h
  exact Lts.exec_sim
    (fun _ _ _ _ _ _ h ha hs hs' => h.step ha.1 ha.2 (step_move hs) (step_move hs'))
    (agree_new fresh1 fresh2 fresh1' fresh2') hboth he he'

/-! ## Only the messages' bytes -/

theorem textOf_append (l l' : List Token) : textOf (l ++ l') = textOf l ++ textOf l' :=
  List.flatMap_append

/-- Without notices the bytes handed over are the texts of the messages handed over. -/
theorem flatten_text {handed : List (Flow.Entry Token Timestamp)}
    (h : handed.filterMap Flow.Entry.dropped? = []) :
    (handed.map Entry.text).flatten = textOf (handed.flatMap Flow.Entry.items) := by
  induction handed with
  | nil => rfl
  | cons entry handed ih =>
    cases entry with
    | data group =>
      rw [List.map_cons, List.flatten_cons, ih h, List.flatMap_cons, textOf_append]
      rfl
    | note now dropped => cases h

theorem textOf_zipIdx {ms : List Msg} (h : ∀ m ∈ ms, m.text = m.logline) :
    textOf ms.zipIdx = ms.flatMap Msg.logline := by
  have hfst : textOf ms.zipIdx = (ms.zipIdx.map Prod.fst).flatMap Msg.text :=
    (List.flatMap_map ..).symm
  rw [hfst, List.zipIdx_map_fst]
  exact List.flatMap_congr h

/-- **Only the messages' bytes.** Over messages of `len` bytes and a NUL none of which but
perhaps the last is zero: without an overload drop the bytes handed to `LogFile` are a prefix of
the messages' bytes, and every other run of the same schedule, whatever lies in the storage it
gets, makes the same calls. -/
theorem handed_prefix_and_repeatable (fresh1 fresh2 : Fresh) (hne : fresh1.addr ≠ fresh2.addr)
    (acts : List Act)
    (hlen : ∀ m ∈ messages acts, m.logline.length = m.len ∧ m.len < kLargeBuffer)
    (hzero : ∀ m ∈ messages acts, m.ZeroFree) (s : AsyncLogging)
    (he : Lts.exec step (new fresh1 fresh2) acts = some s) :
    (cutBatches (new fresh1 fresh2) acts = [] →
      s.handed.flatten <+: (messages acts).flatMap Msg.logline) ∧
    ∀ (fresh1' fresh2' : Fresh) (acts' : List Act) (s' : AsyncLogging),
      List.Forall₂ SameStep acts acts' →
      Lts.exec step (new fresh1' fresh2') acts' = some s' → s'.output = s.output := by
  have hwhole : ∀ m ∈ messages acts, m.Whole := fun m h =>
    ⟨((hzero m h).copied (hlen m h).1).1, (hlen m h).2⟩
  refine ⟨fun hcut => ?_, fun fresh1' fresh2' acts' s' hsame he' =>
    (agree_exec hsame hwhole he he').output.symm⟩
  have hdesc := describes_exec hne hwhole he
  have hhist := history_trace (wf_new hne) he
  have hshed : (ledger (new fresh1 fresh2) acts).shed = [] := by
    have := shedTexts_exec hne hwhole he
    rw [hcut] at this
    exact List.map_eq_nil_iff.mp this
  have hnotes : (ledger (new fresh1 fresh2) acts).notes = [] := by
    have := (Flow.State.run_notes 25 2 (trace (new fresh1 fresh2) 0 acts)).1
    rw [← ledger, hshed] at this
    exact this
  have hkept : (ledger (new fresh1 fresh2) acts).kept = (messages acts).zipIdx := by
    rw [← hhist]
    exact Flow.State.run_kept 25 2 _ hshed
  rw [hdesc.handed, flatten_text hnotes, ← textOf_zipIdx fun m h =>
    ((hzero m h).copied (hlen m h).1).2, ← hkept, Flow.State.kept_eq, List.append_assoc,
    textOf_append]
  exact List.prefix_append _ _

/-! ## A NUL inside a message -/

/-- One iteration of the backend that finds nothing queued. -/
def iteration : List Act :=
  [.test, .lock, .check, .wait, .wake, .swap, .trim ⟨0⟩, .write, .write, .resize, .recycle1,
    .recycle2, .clear]

/-- The first buffer is recycled with `xyz` in it and gets a message with a NUL. -/
def reuse (logline : List UInt8) : List Act :=
  [.append ⟨ascii "xyz", 3⟩ ⟨9, fun _ => 7⟩, .start, .countDown,
    .setup ⟨2, fun _ => 7⟩ ⟨3, fun _ => 7⟩] ++ iteration ++ iteration ++
    [.append ⟨logline, 3⟩ ⟨9, fun _ => 7⟩] ++ iteration

/-- The last byte of `xyz` is written in place of the last byte of the later message. -/
theorem stale_bytes :
    messages (reuse [97, 0, 98]) = [⟨ascii "xyz", 3⟩, ⟨[97, 0, 98], 3⟩] ∧
    (∀ m ∈ messages (reuse [97, 0, 98]), m.logline.length = m.len ∧ m.len < kLargeBuffer) ∧
    (Lts.exec step (new ⟨0, fun _ => 7⟩ ⟨1, fun _ => 7⟩) (reuse [97, 0, 98])).map handed =
      some [ascii "xyz", [], [97, 0, 122]] ∧
    ¬ [ascii "xyz", [], [97, 0, 122]].flatten <+:
      (messages (reuse [97, 0, 98])).flatMap Msg.logline :=
  ⟨rfl, by decide, rfl, by decide⟩

theorem handed_prefix_and_repeatable_reuse :
    (∀ m ∈ messages (reuse (ascii "abc")), m.logline.length = m.len ∧ m.len < kLargeBuffer) ∧
    (∀ m ∈ messages (reuse (ascii "abc")), m.ZeroFree) ∧
    ∃ s, Lts.exec step (new ⟨0, fun _ => 7⟩ ⟨1, fun _ => 7⟩) (reuse (ascii "abc")) = some s ∧
      (cutBatches (new ⟨0, fun _ => 7⟩ ⟨1, fun _ => 7⟩) (reuse (ascii "abc")) = [] →
        s.handed.flatten <+: (messages (reuse (ascii "abc"))).flatMap Msg.logline) ∧
      ∀ (fresh1' fresh2' : Fresh) (acts' : List Act) (s' : AsyncLogging),
        List.Forall₂ SameStep (reuse (ascii "abc")) acts' →
        Lts.exec step (new fresh1' fresh2') acts' = some s' → s'.output = s.output := by
  have hlen : ∀ m ∈ messages (reuse (ascii "abc")),
      m.logline.length = m.len ∧ m.len < kLargeBuffer := by decide
  have hzero : ∀ m ∈ messages (reuse (ascii "abc")), m.ZeroFree := by decide
  obtain ⟨s, he⟩ : ∃ s, Lts.exec step (new ⟨0, fun _ => 7⟩ ⟨1, fun _ => 7⟩) (reuse (ascii "abc")) =
      some s := ⟨_, rfl⟩
  exact ⟨hlen, hzero, s, he, handed_prefix_and_repeatable ⟨0, fun _ => 7⟩ ⟨1, fun _ => 7⟩
    (by decide) (reuse (ascii "abc")) hlen hzero s he⟩

end AsyncLogging

end MultiThreadLog
