import MultiThreadLog.AsyncLogging.Ledger

/-!
# Order and loss of messages

What the pipeline rules say about the code: in every reachable state the messages handed to
`LogFile`, in the batch, queued and current are a subsequence of those appended, each whole, and
the missing ones lay in a batch cut by the overload drop, which left one notice. `cutBatches` are
those batches as the code had them.
-/

namespace MultiThreadLog

open Bytes Numeral

/-- A C string of exactly `len` bytes that fits into a buffer. -/
structure Msg.CString (m : Msg) : Prop where
  strlen_eq : strlen m.logline = m.len
  len_lt : m.len < kLargeBuffer

theorem Msg.CString.whole {m : Msg} (h : m.CString) : m.Whole :=
  ⟨by rw [h.strlen_eq]; omega, h.len_lt⟩

theorem Msg.CString.text_eq {m : Msg} (h : m.CString) : m.text = cstr m.logline := by
  have hlen : (cstr m.logline).length = m.len := h.strlen_eq
  rw [Msg.text, ← hlen, List.take_left]

namespace AsyncLogging

variable {s s' : AsyncLogging} {L : Ledger} {m : Msg} {n : Nat}

/-- Such a message can be appended whenever the mutex is free. -/
theorem append_enabled {fresh : Fresh} (hw : WF s) (hm : m.CString)
    (hfree : s.pc.holdsMutex = false) (hfresh : fresh.addr ∉ s.live.map Buffer.addr) :
    ∃ s', s.append m fresh = some s' := by
  have fits : ∀ b : Buffer, m.len < b.avail → ∃ b', b.append m.logline m.len = some b' := by
    intro b hb
    have hfit : strlen m.logline < b.buf.avail := by rw [hm.strlen_eq]; exact hb
    obtain ⟨buf, hbuf⟩ : ∃ buf, b.buf.append m.logline m.len = some buf :=
      FixedBuffer.append_defined hfit
    exact ⟨{ b with buf }, by rw [Buffer.append, hbuf, Option.map_some]⟩
  have empty : ∀ b : Buffer, b.length = 0 → m.len < b.avail :=
    fun b hb => lt_avail_of_empty hb hm.len_lt
  obtain ⟨b, hb⟩ := hw.current
  unfold append
  rw [if_neg (by simp [hfree]), hb, Option.bind_some]
  by_cases hlen : m.len < b.avail
  · obtain ⟨b', hb'⟩ := fits b hlen
    exact ⟨_, by rw [if_pos hlen, hb', Option.map_some]⟩
  · rw [if_neg hlen]
    rcases hw.next with hn | ⟨c, hn, hz⟩
    · obtain ⟨c', hc'⟩ := fits (Buffer.new fresh) (empty _ rfl)
      have halloc : s.alloc fresh = some (Buffer.new fresh) := if_neg hfresh
      simp only [hn, halloc, Option.bind_some, hc', Option.map_some, Option.some.injEq, exists_eq']
    · obtain ⟨c', hc'⟩ := fits c (empty c hz)
      simp only [hn, Option.bind_some, hc', Option.map_some, Option.some.injEq, exists_eq']

/-! ## The notices -/

theorem length_toFormattedString (now : Timestamp) (showMicroseconds : Bool) :
    (now.toFormattedString showMicroseconds).length ≤ 63 := by
  unfold Timestamp.toFormattedString
  split <;> exact List.length_take_le _ _

/-- The number of buffers and what follows it are in the notice, whatever the time. -/
theorem noticeText_eq (now : Timestamp) {dropped : Nat} (h : dropped < 2 ^ 63) :
    noticeText now dropped = ascii "Dropped log messages at " ++ now.toFormattedString true ++
      ascii ", " ++ decimal dropped ++ ascii " larger buffers\n" := by
  have htime := length_toFormattedString now true
  have hnum : (decimal dropped).length ≤ 20 := decimal_length_le (by decide) (by omega)
  have h1 : (ascii "Dropped log messages at ").length = 24 := rfl
  have h2 : (ascii ", ").length = 2 := rfl
  have h3 : (ascii " larger buffers\n").length = 16 := rfl
  apply List.take_of_length_le
  simp only [List.length_append]
  omega

/-! ## The batches that were cut -/

/-- The texts of the buffers of a batch that a step cuts. -/
def cutBatch (s : AsyncLogging) : Act → List (List (List UInt8))
  | .trim _ =>
    if 25 < s.buffersToWrite.length then [s.buffersToWrite.map Buffer.toString] else []
  | _ => []

/-- All batches cut in a run. -/
def cutBatches : AsyncLogging → List Act → List (List (List UInt8))
  | _, [] => []
  | s, a :: acts => cutBatch s a ++ ((s.step a).map fun s' => cutBatches s' acts).getD []

theorem cutBatches_snoc {acts : List Act} {a : Act} (h : Lts.exec step s acts = some s') :
    cutBatches s (acts ++ [a]) = cutBatches s acts ++ cutBatch s' a := by
  induction acts generalizing s with
  | nil =>
    cases h
    cases ha : s'.step a <;> simp [cutBatches, ha]
  | cons b acts ih =>
    obtain ⟨u, hu, h⟩ := Lts.exec_cons h
    simp only [List.cons_append, cutBatches, hu, Option.map_some, Option.getD_some, ih h,
      List.append_assoc]

/-- The texts of the batches the ledger records as cut. -/
def shedTexts (L : Ledger) : List (List (List UInt8)) := L.shed.map fun batch => batch.map textOf

theorem shedTexts_step {a : Act} (h : Describes s L) (hs : Move s a s') :
    shedTexts (L.run 25 2 (flowOps s n a)) = shedTexts L ++ cutBatch s a := by
  cases a with
  | append m fresh =>
    simp only [flowOps, cutBatch, List.append_nil]
    split
    · split <;> rfl
    · rfl
  | trim now =>
    have hbatch : s.buffersToWrite.map Buffer.toString = L.batch.map textOf := by
      have := h.batch
      cases hs with
      | drop hp hlen => simpa only [pending, hp] using this
      | keep hp hne hlen => simpa only [pending, hp] using this
    have hsize : L.batch.length = s.buffersToWrite.length := by
      have := congrArg List.length hbatch
      simpa using this.symm
    by_cases hlen : 25 < s.buffersToWrite.length
    · rw [cutBatch, if_pos hlen, hbatch]
      show shedTexts (L.apply 25 2 (.trim now)) = _
      rw [Flow.State.apply_trim_lt (by omega), shedTexts, List.map_append]
      rfl
    · rw [cutBatch, if_neg hlen, List.append_nil]
      show shedTexts (L.apply 25 2 (.trim now)) = _
      rw [Flow.State.apply_trim_le (by omega)]
  | write =>
    simp only [flowOps, cutBatch, List.append_nil]
    split
    · split
      · obtain ⟨handed, batch, queued, current, shed⟩ := L
        cases batch <;> rfl
      · rfl
    · rfl
  | _ => simp [flowOps, cutBatch, shedTexts, Flow.State.run, Flow.State.apply]

theorem shedTexts_exec {fresh1 fresh2 : Fresh} (hne : fresh1.addr ≠ fresh2.addr) {acts : List Act}
    (hm : ∀ m ∈ messages acts, m.Whole) (he : Lts.exec step (new fresh1 fresh2) acts = some s) :
    shedTexts (ledger (new fresh1 fresh2) acts) = cutBatches (new fresh1 fresh2) acts := by
  refine Lts.exec_inv (P := fun acts s => (∀ m ∈ messages acts, m.Whole) →
    shedTexts (ledger (new fresh1 fresh2) acts) = cutBatches (new fresh1 fresh2) acts) ?_ ?_ he hm
  · intro _
    rfl
  · intro acts s a s' he ih hs hm
    rw [messages_snoc] at hm
    have hm' : ∀ m ∈ messages acts, m.Whole := fun m h => hm m (List.mem_append_left _ h)
    rw [ledger_snoc he, cutBatches_snoc he, ← ih hm']
    exact shedTexts_step (describes_exec hne hm' he) (step_move hs)

/-! ## Order and loss -/

theorem zipIdx_snd (ms : List Msg) : (ms.zipIdx.map Prod.snd).Pairwise (· < ·) := by
  rw [List.zipIdx_map_snd]
  exact List.pairwise_lt_range'

/-- **Order and loss.** In every reachable state the messages handed to `LogFile`, then those
in the batch, queued and current, are a subsequence of the appended ones, in the order of their
critical sections and each at most once; the places hold the texts of these messages, whole. A
missing message lay in the third or a later buffer of a batch of more than 25 that was cut, and
each cut wrote one notice with the number of buffers cut off, in digits. -/
theorem messages_in_order (fresh1 fresh2 : Fresh) (hne : fresh1.addr ≠ fresh2.addr)
    (acts : List Act) (hm : ∀ m ∈ messages acts, m.CString) (s : AsyncLogging)
    (he : Lts.exec step (new fresh1 fresh2) acts = some s) :
    ∃ L : Ledger, L = ledger (new fresh1 fresh2) acts ∧ Describes s L ∧
      (∀ t ∈ L.kept, t.1.text = cstr t.1.logline) ∧
      L.kept.Sublist (messages acts).zipIdx ∧
      (L.kept.map Prod.snd).Pairwise (· < ·) ∧
      (∀ t ∈ (messages acts).zipIdx, t ∉ L.kept →
        ∃ batch ∈ L.shed, 25 < batch.length ∧ t ∈ (batch.drop 2).flatten) ∧
      L.shed.map (fun batch => batch.map textOf) = cutBatches (new fresh1 fresh2) acts ∧
      L.notes = L.shed.map (fun batch => (batch.drop 2).length) ∧
      ∀ now k, .note now k ∈ L.handed → k < 2 ^ 63 → Entry.text (.note now k) =
        ascii "Dropped log messages at " ++ now.toFormattedString true ++ ascii ", " ++
          decimal k ++ ascii " larger buffers\n" := by
  have hwhole : ∀ m ∈ messages acts, m.Whole := fun m h => (hm m h).whole
  have hhist := history_trace (wf_new hne) he
  have hsub : (ledger (new fresh1 fresh2) acts).kept.Sublist (messages acts).zipIdx := by
    rw [← hhist]
    exact Flow.State.run_kept_sublist 25 2 _
  refine ⟨_, rfl, describes_exec hne hwhole he, fun t ht => ?_, hsub, ?_, fun t ht hk => ?_,
    shedTexts_exec hne hwhole he, ?_, fun now k _ hk => noticeText_eq now hk⟩
  · have hmem := List.fst_mem_of_mem_zipIdx (hsub.subset ht)
    exact (hm _ hmem).text_eq
  · exact (zipIdx_snd (messages acts)).sublist (hsub.map Prod.snd)
  · rw [← hhist] at ht
    exact Flow.State.mem_shed_of_not_kept 25 2 ht hk
  · simp only [List.length_drop]
    exact (Flow.State.run_notes 25 2 _).1

theorem messages_in_order_firstSwap :
    (∀ m ∈ messages firstSwap, m.CString) ∧
    ∃ s, Lts.exec step (new ⟨0, fun _ => 7⟩ ⟨1, fun _ => 7⟩) firstSwap = some s ∧
      ∃ L : Ledger, L = ledger (new ⟨0, fun _ => 7⟩ ⟨1, fun _ => 7⟩) firstSwap ∧ Describes s L ∧
        (∀ t ∈ L.kept, t.1.text = cstr t.1.logline) ∧
        L.kept.Sublist (messages firstSwap).zipIdx ∧
        (L.kept.map Prod.snd).Pairwise (· < ·) ∧
        (∀ t ∈ (messages firstSwap).zipIdx, t ∉ L.kept →
          ∃ batch ∈ L.shed, 25 < batch.length ∧ t ∈ (batch.drop 2).flatten) ∧
        L.shed.map (fun batch => batch.map textOf) =
          cutBatches (new ⟨0, fun _ => 7⟩ ⟨1, fun _ => 7⟩) firstSwap ∧
        L.notes = L.shed.map (fun batch => (batch.drop 2).length) ∧
        ∀ now k, .note now k ∈ L.handed → k < 2 ^ 63 → Entry.text (.note now k) =
          ascii "Dropped log messages at " ++ now.toFormattedString true ++ ascii ", " ++
            decimal k ++ ascii " larger buffers\n" := by
  have hm : ∀ m ∈ messages firstSwap, m.CString := by
    intro m hm
    obtain rfl : m = ⟨ascii "hi", 2⟩ := List.mem_singleton.mp hm
    exact ⟨by decide, by decide⟩
  obtain ⟨s, he⟩ : ∃ s, Lts.exec step (new ⟨0, fun _ => 7⟩ ⟨1, fun _ => 7⟩) firstSwap = some s :=
    ⟨_, rfl⟩
  exact ⟨hm, s, he, messages_in_order ⟨0, fun _ => 7⟩ ⟨1, fun _ => 7⟩ (by decide) firstSwap hm s he⟩

end AsyncLogging

end MultiThreadLog
