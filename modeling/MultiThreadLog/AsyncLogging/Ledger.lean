import MultiThreadLog.Lib.Flow
import MultiThreadLog.AsyncLogging.Invariant

/-!
# Where every message is

The places a message passes are a batched FIFO pipeline (`Lib/Flow.lean`) with the limit of 25
buffers and the two that stay: the current buffer is the current group, `buffers_` the queue,
`buffersToWrite` the batch. `trace` reads the pipeline's operations off a run of the code, and
`ledger` performs them on the messages themselves, numbered in the order their critical sections
came. `Describes` ties the two together: the bytes in every place of the code are the texts of the
messages the ledger has there.
-/

namespace MultiThreadLog

open Bytes

/-- What `append` adds to a buffer when `len` reaches at most to the terminator. -/
def Msg.text (m : Msg) : List UInt8 := (cstr m.logline ++ [0]).take m.len

/-- `len` reaches at most to the terminator that `strcpy` copies, and fits into a buffer. -/
structure Msg.Whole (m : Msg) : Prop where
  len_le : m.len ≤ strlen m.logline + 1
  len_lt : m.len < kLargeBuffer

def Act.messages : Act → List Msg
  | .append m _ => [m]
  | _ => []

namespace AsyncLogging

/-! ## The pipeline of a run -/

/-- A message and its number. -/
abbrev Token := Msg × Nat

abbrev Ledger := Flow.State Token Timestamp

/-- The messages appended, in the order of their critical sections. -/
def messages (acts : List Act) : List Msg := acts.flatMap Act.messages

/-- The operations of one step, when `n` messages came before. -/
def flowOps (s : AsyncLogging) (n : Nat) : Act → List (Flow.Op Token Timestamp)
  | .append m _ =>
    match s.currentBuffer with
    | some b => if m.len < b.avail then [.put (m, n)] else [.roll, .put (m, n)]
    | none => []
  | .swap => [.take]
  | .trim now => [.trim now]
  | .write =>
    match s.pc with
    | .write k => if k < s.buffersToWrite.length then [.emit] else []
    | _ => []
  | _ => []

/-- The operations of a run. -/
def trace : AsyncLogging → Nat → List Act → List (Flow.Op Token Timestamp)
  | _, _, [] => []
  | s, n, a :: acts =>
    flowOps s n a ++ ((s.step a).map fun s' => trace s' (n + a.messages.length) acts).getD []

/-- The ledger after a run from the constructor on. -/
def ledger (s : AsyncLogging) (acts : List Act) : Ledger :=
  Flow.State.empty.run 25 2 (trace s 0 acts)

variable {s s' : AsyncLogging} {L : Ledger} {m : Msg} {n : Nat}

theorem trace_snoc {acts : List Act} {a : Act} (h : Lts.exec step s acts = some s') :
    trace s n (acts ++ [a]) = trace s n acts ++ flowOps s' (n + (messages acts).length) a := by
  induction acts generalizing s n with
  | nil =>
    cases h
    cases ha : s'.step a <;> simp [trace, ha, messages]
  | cons b acts ih =>
    obtain ⟨u, hu, h⟩ := Lts.exec_cons h
    simp only [List.cons_append, trace, hu, Option.map_some, Option.getD_some, ih h, messages,
      List.flatMap_cons, List.length_append, List.append_assoc, Nat.add_assoc]

theorem ledger_snoc {acts : List Act} {a : Act} (h : Lts.exec step s acts = some s') :
    ledger s (acts ++ [a]) =
      (ledger s acts).run 25 2 (flowOps s' (messages acts).length a) := by
  rw [ledger, trace_snoc h, Flow.State.run_append, Nat.zero_add]
  rfl

theorem messages_snoc (acts : List Act) (a : Act) :
    messages (acts ++ [a]) = messages acts ++ a.messages := by simp [messages]

/-- A step puts in the messages it appends, with their number. -/
theorem history_flowOps {a : Act} (hb : ∃ b, s.currentBuffer = some b) :
    Flow.history (flowOps s n a) = a.messages.zipIdx n := by
  obtain ⟨b, hb⟩ := hb
  cases a with
  | append m fresh =>
    simp only [flowOps, hb]
    split <;> rfl
  | write =>
    simp only [flowOps]
    split
    · split <;> rfl
    · rfl
  | _ => rfl

theorem history_trace {acts : List Act} (hw : WF s) (h : Lts.exec step s acts = some s') :
    Flow.history (trace s 0 acts) = (messages acts).zipIdx := by
  induction acts using List.reverseRecOn generalizing s' with
  | nil => rfl
  | append_singleton acts a ih =>
    obtain ⟨u, hu, -⟩ := Lts.exec_append_some h
    rw [trace_snoc hu, Flow.history, List.flatMap_append, ← Flow.history, ← Flow.history, ih hu,
      history_flowOps (wf_exec hw hu).current, messages_snoc, List.zipIdx_append]

/-! ## The ledger describes the code -/

/-- The bytes of a group of messages. -/
def textOf (group : List Token) : List UInt8 := group.flatMap fun t => t.1.text

def Entry.text : Flow.Entry Token Timestamp → List UInt8
  | .data group => textOf group
  | .note now dropped => noticeText now dropped

/-- The buffers of the batch that are still to be written. -/
def pending (s : AsyncLogging) : List Buffer :=
  match s.pc with
  | .trim => s.buffersToWrite
  | .write k => s.buffersToWrite.drop k
  | _ => []

structure Describes (s : AsyncLogging) (L : Ledger) : Prop where
  handed : s.handed = L.handed.map Entry.text
  batch : s.pending.map Buffer.toString = L.batch.map textOf
  queued : s.buffers.map Buffer.toString = L.queued.map textOf
  current : ∀ b, s.currentBuffer = some b → b.toString = textOf L.current

theorem pending_signalled (s : AsyncLogging) :
    pending { s with pc := s.pc.signalled } = s.pending := by
  cases hp : s.pc <;> simp [pending, Pc.signalled, hp]

theorem toString_append {b b' : Buffer} (h : b.append m.logline m.len = some b')
    (hlen : m.len < b.avail) (hm : m.Whole) : b'.toString = b.toString ++ m.text := by
  obtain ⟨buf, hbuf, e⟩ := Option.map_eq_some_iff.mp h
  rw [← e]
  exact FixedBuffer.append_toString hbuf hlen hm.len_le

/-- An empty buffer has room for whatever fits into a buffer. -/
theorem lt_avail_of_empty {b : Buffer} {len : Nat} (hb : b.length = 0)
    (hlt : len < kLargeBuffer) : len < b.avail := by
  have hsum : b.buf.avail + b.buf.length = kLargeBuffer := b.buf.avail_add_length
  have h0 : b.buf.length = 0 := hb
  show len < b.buf.avail
  omega

/-- An empty buffer takes every message that fits into a buffer. -/
theorem toString_append_empty {b b' : Buffer} (h : b.append m.logline m.len = some b')
    (hb : b.length = 0) (hm : m.Whole) : b'.toString = m.text := by
  rw [toString_append h (lt_avail_of_empty hb hm.len_lt) hm, Buffer.toString,
    FixedBuffer.toString_of_length hb, List.nil_append]

theorem Describes.moved (h : Describes s L) (hout : s'.handed = s.handed)
    (hp : s'.pending = s.pending) (hq : s'.buffers = s.buffers)
    (hc : s'.currentBuffer = s.currentBuffer) : Describes s' L :=
  ⟨by rw [hout, h.handed], by rw [hp, h.batch], by rw [hq, h.queued], by rw [hc]; exact h.current⟩

theorem handed_append (o : List Call) (bytes : List UInt8) :
    handed { s with output := o ++ [.append bytes] } =
      handed { s with output := o } ++ [bytes] := by
  simp [handed, Call.bytes?]

theorem handed_flush (o : List Call) :
    handed { s with output := o ++ [.flush] } = handed { s with output := o } := by
  simp [handed, Call.bytes?, List.filterMap_cons]

/-- **One step** of the code is described by its operations. -/
theorem Describes.step {a : Act} (h : Describes s L) (hw : WF s) (hs : Move s a s')
    (hm : ∀ m ∈ a.messages, m.Whole) : Describes s' (L.run 25 2 (flowOps s n a)) := by
  cases hs with
  | @put m fresh b b' hmx hb hlen happ =>
    have hwhole : m.Whole := hm m (by simp [Act.messages])
    have hops : flowOps s n (.append m fresh) = [.put (m, n)] := by
      simp only [flowOps, hb, if_pos hlen]
    rw [hops]
    refine ⟨h.handed, h.batch, h.queued, fun c hc => ?_⟩
    cases hc
    rw [toString_append happ hlen hwhole, h.current b hb]
    simp [Flow.State.run, Flow.State.apply, textOf]
  | @roll m fresh b c c' hmx hb hlen hc happ =>
    have hwhole : m.Whole := hm m (by simp [Act.messages])
    have hempty : c.length = 0 := by
      rcases hc with hn | ⟨-, halloc⟩
      · rcases hw.next with hnone | ⟨d, hd, hz⟩
        · rw [hn] at hnone
          cases hnone
        · rw [hn] at hd
          cases hd
          exact hz
      · rw [(held_alloc (a := 0) halloc).1]
        rfl
    have hops : flowOps s n (.append m fresh) = [.roll, .put (m, n)] := by
      simp only [flowOps, hb, if_neg (Nat.not_lt.mpr hlen)]
    rw [hops]
    refine ⟨h.handed, ?_, ?_, fun d hd => ?_⟩
    · exact (congrArg _ (pending_signalled _)).trans h.batch
    · show (s.buffers ++ [b]).map Buffer.toString = (L.queued ++ [L.current]).map textOf
      rw [List.map_append, List.map_append, h.queued, List.map_singleton, List.map_singleton,
        h.current b hb]
    · cases hd
      rw [toString_append_empty happ hempty hwhole]
      simp [Flow.State.run, Flow.State.apply, textOf]
  | start ho hp => exact h.moved rfl (by simp [pending, hp]) rfl rfl
  | started | stop | clearRunning | join => exact h.moved rfl rfl rfl rfl
  | notify ho => exact h.moved rfl (pending_signalled _) rfl rfl
  | countDown hp | setup hp | enter hp | lock hp | empty hp | nonempty hp | wait hp | wake hp
  | resize hp | has1 hp | recycle1 hp | has2 hp | recycle2 hp =>
    exact h.moved rfl (by simp [pending, hp]) rfl rfl
  | exit hp hr => exact h.moved (handed_flush s.output) (by simp [pending, hp]) rfl rfl
  | clear hp => exact h.moved (handed_flush s.output) (by simp [pending, hp]) rfl rfl
  | @swap b hp hb =>
    have hl := hw.locals
    simp only [Locals, hp] at hl
    obtain ⟨⟨c, hc, hz⟩, -, hnil⟩ := hl
    have hbatch : L.batch = [] := by
      have := h.batch
      simpa [pending, hp] using this
    refine ⟨h.handed, ?_, ?_, fun d hd => ?_⟩
    · show (s.buffers ++ [b]).map Buffer.toString =
        (L.batch ++ L.queued ++ [L.current]).map textOf
      rw [hbatch, List.nil_append, List.map_append, List.map_append, h.queued, List.map_singleton,
        List.map_singleton, h.current b hb]
    · show s.buffersToWrite.map Buffer.toString = ([] : List (List Token)).map textOf
      rw [hnil]
      rfl
    · have e : s.newBuffer1 = some d := hd
      rw [hc] at e
      cases e
      exact FixedBuffer.toString_of_length hz
  | @drop now hp hlen =>
    have hbatch : s.buffersToWrite.map Buffer.toString = L.batch.map textOf := by
      have := h.batch
      simpa only [pending, hp] using this
    have hsize : L.batch.length = s.buffersToWrite.length := by
      have := congrArg List.length hbatch
      simpa using this.symm
    have hcut : L.run 25 2 (flowOps s n (.trim now)) = { L with
        handed := L.handed ++ [.note now (s.buffersToWrite.length - 2)]
        batch := L.batch.take 2
        shed := L.shed ++ [L.batch] } := by
      rw [← hsize]
      exact Flow.State.apply_trim_lt (by omega)
    rw [hcut]
    refine ⟨?_, ?_, h.queued, h.current⟩
    · rw [List.map_append, ← h.handed]
      exact handed_append s.output _
    · show (s.buffersToWrite.take 2).map Buffer.toString = (L.batch.take 2).map textOf
      rw [List.map_take, hbatch, List.map_take]
  | @keep now hp hne hlen =>
    have hsize : L.batch.length ≤ 25 := by
      have := congrArg List.length h.batch
      simp only [pending, hp, List.length_map] at this
      omega
    have hsame : L.run 25 2 (flowOps s n (.trim now)) = L := Flow.State.apply_trim_le hsize
    rw [hsame]
    exact h.moved rfl (by simp [pending, hp]) rfl rfl
  | @write k b hp hb =>
    obtain ⟨hk, hget⟩ := List.getElem?_eq_some_iff.mp hb
    have hops : flowOps s n .write = [.emit] := by simp only [flowOps, hp, if_pos hk]
    have hpend : s.pending = b :: s.buffersToWrite.drop (k + 1) := by
      simp only [pending, hp]
      rw [List.drop_eq_getElem_cons hk, hget]
    have hbatch := h.batch
    rw [hpend, List.map_cons] at hbatch
    rw [hops]
    obtain ⟨handed, batch, queued, current, shed⟩ := L
    cases batch with
    | nil => cases hbatch
    | cons group batch =>
      obtain ⟨e1, e2⟩ := List.cons.inj hbatch
      refine ⟨?_, e2, h.queued, h.current⟩
      show AsyncLogging.handed { s with output := s.output ++ [.append b.toString] } =
        (handed ++ [Flow.Entry.data group]).map Entry.text
      rw [handed_append, List.map_append, ← h.handed, List.map_singleton, Entry.text, ← e1]
  | @written k hp hk =>
    have hops : flowOps s n .write = [] := by
      simp only [flowOps, hp, if_neg (Nat.not_lt.mpr hk)]
    rw [hops]
    exact h.moved rfl (by simp [pending, hp, List.drop_eq_nil_of_le hk]) rfl rfl

theorem describes_new (fresh1 fresh2 : Fresh) : Describes (new fresh1 fresh2) Flow.State.empty := by
  refine ⟨rfl, rfl, rfl, fun b hb => ?_⟩
  cases hb
  rfl

/-- **The ledger describes every reachable state.** -/
theorem describes_exec {fresh1 fresh2 : Fresh} (hne : fresh1.addr ≠ fresh2.addr) {acts : List Act}
    (hm : ∀ m ∈ messages acts, m.Whole) (he : Lts.exec step (new fresh1 fresh2) acts = some s) :
    Describes s (ledger (new fresh1 fresh2) acts) := by
  refine Lts.exec_inv (P := fun acts s => (∀ m ∈ messages acts, m.Whole) →
    Describes s (ledger (new fresh1 fresh2) acts)) ?_ ?_ he hm
  · intro _
    exact describes_new fresh1 fresh2
  · intro acts s a s' he ih hs hm
    rw [messages_snoc] at hm
    rw [ledger_snoc he]
    exact (ih fun m h => hm m (List.mem_append_left _ h)).step (wf_exec (wf_new hne) he)
      (step_move hs) fun m h => hm m (List.mem_append_right _ h)

end AsyncLogging

end MultiThreadLog
