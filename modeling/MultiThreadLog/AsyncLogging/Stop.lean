import MultiThreadLog.AsyncLogging.Delivery

/-!
# `stop()` and the messages before it

After `running_` is cleared the backend reaches its loop test at most once more, and the test
ends the loop. What is queued at that moment is written only if the backend still has a swap in
front of it, that is if it has passed the loop test already and not yet swapped. `Leaving` is the
invariant of the steps from that moment to the end of `stop()`.
-/

namespace MultiThreadLog

open Bytes

/-- The loop test has let the backend in, and the swap is still to come. -/
def Pc.beforeSwap : Pc → Bool
  | .lock | .check | .wait | .blocked _ | .swap => true
  | _ => false

namespace AsyncLogging

variable {s s' s1 : AsyncLogging} {L L1 : Ledger} {n n1 : Nat} {a : Act}

/-- `stop()` has cleared `running_`. -/
structure Cleared (s : AsyncLogging) : Prop where
  running : s.running = false
  owner : s.owner = .cleared ∨ s.owner = .notified ∨ s.owner = .joined
  exited : s.owner = .joined → s.pc = .exited

theorem beforeSwap_signalled (pc : Pc) : pc.signalled.beforeSwap = pc.beforeSwap := by
  cases pc <;> rfl

/-- The flag stays cleared, and only the swap moves the backend past its window. -/
theorem Cleared.step (h : Cleared s) (hs : Move s a s') :
    Cleared s' ∧ (a ≠ .swap → s'.pc.beforeSwap = s.pc.beforeSwap) := by
  obtain ⟨hr, ho, he⟩ := h
  have back : s.pc ≠ .exited → s.owner ≠ .joined := fun hp hj => hp (he hj)
  cases hs with
  | put => exact ⟨⟨hr, ho, he⟩, fun _ => rfl⟩
  | roll => exact ⟨⟨hr, ho, fun hj => by rw [he hj]; rfl⟩, fun _ => beforeSwap_signalled _⟩
  | start ho' | started ho' | stop ho' | clearRunning ho' =>
    rw [ho'] at ho
    rcases ho with ho | ho | ho <;> cases ho
  | notify ho' =>
    exact ⟨⟨hr, .inr (.inl rfl), fun hj => nomatch hj⟩, fun _ => beforeSwap_signalled _⟩
  | join ho' hp => exact ⟨⟨hr, .inr (.inr rfl), fun _ => hp⟩, fun _ => rfl⟩
  | countDown hp hr' | enter hp hr' =>
    rw [hr] at hr'
    cases hr'
  | exit hp => exact ⟨⟨hr, ho, fun _ => rfl⟩, fun _ => by simp [hp, Pc.beforeSwap]⟩
  | swap hp =>
    exact ⟨⟨hr, ho, fun hj => absurd hj (back (by simp [hp]))⟩, fun h => absurd rfl h⟩
  | setup hp | lock hp | empty hp | nonempty hp | wait hp | wake hp | drop hp | keep hp | write hp
  | written hp | resize hp | has1 hp | recycle1 hp | has2 hp | recycle2 hp | clear hp =>
    exact ⟨⟨hr, ho, fun hj => absurd hj (back (by simp [hp]))⟩, fun _ => by
      simp [hp, Pc.beforeSwap]⟩

/-- Between the clearing of `running_` in `s1`, when `n1` messages had come, and now: the
messages waiting then still wait in front of later ones, or the last swap took them. -/
structure Leaving (s1 : AsyncLogging) (L1 : Ledger) (n1 : Nat) (s : AsyncLogging) (L : Ledger) :
    Prop where
  cleared : Cleared s
  waiting : ∃ later : List Token, (∀ t ∈ later, n1 ≤ t.2) ∧
    (s.pc.beforeSwap = s1.pc.beforeSwap ∧ L.waiting = L1.waiting ++ later ∨
      s1.pc.beforeSwap = true ∧ s.pc.beforeSwap = false ∧ L.waiting = later)

theorem waiting_step (ha : a ≠ .swap) (hb : ∃ b, s.currentBuffer = some b) :
    (L.run 25 2 (flowOps s n a)).waiting = L.waiting ++ a.messages.zipIdx n := by
  rw [← history_flowOps hb, Flow.State.run_waiting]
  rintro op hop rfl
  cases a with
  | swap => exact ha rfl
  | append | write =>
    simp only [flowOps] at hop
    split at hop
    · split at hop <;> simp at hop
    · cases hop
  | _ => simp [flowOps] at hop

theorem Leaving.step (h : Leaving s1 L1 n1 s L) (hw : WF s) (hn : n1 ≤ n) (hs : Move s a s') :
    Leaving s1 L1 n1 s' (L.run 25 2 (flowOps s n a)) := by
  obtain ⟨hcleared, later, hlater, hcase⟩ := h
  obtain ⟨hcleared', hwindow⟩ := hcleared.step hs
  refine ⟨hcleared', ?_⟩
  by_cases ha : a = .swap
  · subst ha
    cases hs with
    | swap hp hb =>
      have hin : s.pc.beforeSwap = true := by rw [hp]; rfl
      refine ⟨[], by simp, .inr ⟨?_, rfl, rfl⟩⟩
      rcases hcase with ⟨e, -⟩ | ⟨e, -, -⟩
      · rw [← e, hin]
      · exact e
  · have hnew : ∀ t ∈ later ++ a.messages.zipIdx n, n1 ≤ t.2 := by
      intro t ht
      rcases List.mem_append.mp ht with ht | ht
      · exact hlater t ht
      · have := List.le_snd_of_mem_zipIdx ht
        omega
    refine ⟨later ++ a.messages.zipIdx n, hnew, ?_⟩
    rw [waiting_step ha hw.current, hwindow ha]
    rcases hcase with ⟨e, hwait⟩ | ⟨e, e', hwait⟩
    · exact .inl ⟨e, by rw [hwait, List.append_assoc]⟩
    · exact .inr ⟨e, e', by rw [hwait]⟩

/-- The steps of `stop()` and of everyone else from the clearing of `running_` on. -/
theorem leaving_exec {fresh1 fresh2 : Fresh} (hne : fresh1.addr ≠ fresh2.addr)
    {acts post : List Act} (h1 : Lts.exec step (new fresh1 fresh2) acts = some s1)
    (h2 : Lts.exec step s1 (.clearRunning :: post) = some s) :
    Leaving s1 (ledger (new fresh1 fresh2) acts) (messages acts).length s
      (ledger (new fresh1 fresh2) (acts ++ .clearRunning :: post)) := by
  obtain ⟨u, hu, hpost⟩ := Lts.exec_cons h2
  have hexec : Lts.exec step (new fresh1 fresh2) (acts ++ [.clearRunning]) = some u :=
    Lts.exec_snoc h1 hu
  have hstart : Leaving s1 (ledger (new fresh1 fresh2) acts) (messages acts).length u
      (ledger (new fresh1 fresh2) (acts ++ [.clearRunning])) := by
    rw [ledger_snoc h1]
    cases step_move hu with
    | clearRunning ho =>
      exact ⟨⟨rfl, .inl rfl, fun hj => nomatch hj⟩, [], by simp, .inl ⟨rfl, by simp [flowOps]⟩⟩
  have hrun := Lts.exec_inv (P := fun post s =>
    Leaving s1 (ledger (new fresh1 fresh2) acts) (messages acts).length s
      (ledger (new fresh1 fresh2) (acts ++ [.clearRunning] ++ post)))
    (by rw [List.append_nil]; exact hstart) (fun post v a v' hv ih hs => ?_) hpost
  · rw [List.append_assoc] at hrun
    exact hrun
  · have hfull : Lts.exec step (new fresh1 fresh2) (acts ++ [.clearRunning] ++ post) = some v := by
      rw [Lts.exec_append, hexec, Option.bind_some, hv]
    rw [← List.append_assoc, ledger_snoc hfull]
    refine ih.step (wf_exec (wf_new hne) hfull) ?_ (step_move hs)
    simp only [messages, List.flatMap_append, List.length_append]
    omega

theorem token_lt {acts : List Act} {t : Token} (ht : t ∈ (messages acts).zipIdx) :
    t.2 < (messages acts).length := by
  have := List.snd_lt_of_mem_zipIdx ht
  omega

theorem token_mem {acts acts' : List Act} {t : Token} (ht : t ∈ (messages acts).zipIdx) :
    t ∈ (messages (acts ++ acts')).zipIdx := by
  rw [messages, List.flatMap_append, List.zipIdx_append]
  exact List.mem_append_left _ ht

theorem zipIdx_nodup (ms : List Msg) : ms.zipIdx.Nodup :=
  (List.pairwise_map.mp (zipIdx_snd ms)).imp fun {x y} hlt heq => by
    rw [heq] at hlt
    exact Nat.lt_irrefl _ hlt

/-- **What `stop()` delivers.** When it has returned, all messages appended before the call have
been handed to `LogFile` or cut by an overload drop exactly if, at the moment `running_` was
cleared, the backend had passed its loop test and not yet swapped, or none of these messages was
in `buffers_` or the current buffer. -/
theorem stop_delivers_iff (fresh1 fresh2 : Fresh) (hne : fresh1.addr ≠ fresh2.addr)
    (pre mid post : List Act) (s1 s : AsyncLogging)
    (hm : ∀ m ∈ messages (pre ++ .stop :: mid ++ .clearRunning :: post), m.CString)
    (h1 : Lts.exec step (new fresh1 fresh2) (pre ++ .stop :: mid) = some s1)
    (h2 : Lts.exec step s1 (.clearRunning :: post) = some s) (hj : s.owner = .joined) :
    ∃ L1 L : Ledger, L1 = ledger (new fresh1 fresh2) (pre ++ .stop :: mid) ∧
      L = ledger (new fresh1 fresh2) (pre ++ .stop :: mid ++ .clearRunning :: post) ∧
      Describes s1 L1 ∧ Describes s L ∧
      ((∀ t ∈ (messages pre).zipIdx, t ∈ L.delivered ∨ t ∈ L.lost 2) ↔
        (s1.pc.beforeSwap = true ∨ ∀ t ∈ (messages pre).zipIdx, t ∉ L1.waiting)) := by
  have he : Lts.exec step (new fresh1 fresh2) (pre ++ .stop :: mid ++ .clearRunning :: post) =
      some s := by
    rw [Lts.exec_append, h1, Option.bind_some, h2]
  have hm1 : ∀ m ∈ messages (pre ++ .stop :: mid), m.Whole := by
    intro m h
    refine (hm m ?_).whole
    rw [messages, List.flatMap_append]
    exact List.mem_append_left _ h
  have hL1 := describes_exec hne hm1 h1
  have hL := describes_exec hne (fun m h => (hm m h).whole) he
  obtain ⟨hcleared, later, hlater, hcase⟩ := leaving_exec hne h1 h2
  have hexited := hcleared.exited hj
  have hhist := history_trace (wf_new hne) he
  -- nothing is left in the batch, so a message is settled unless it still waits
  have settled : ∀ t ∈ (messages pre).zipIdx,
      (t ∈ (ledger (new fresh1 fresh2) (pre ++ .stop :: mid ++ .clearRunning :: post)).delivered ∨
        t ∈ (ledger (new fresh1 fresh2) (pre ++ .stop :: mid ++ .clearRunning :: post)).lost 2) ↔
      t ∉ (ledger (new fresh1 fresh2) (pre ++ .stop :: mid ++ .clearRunning :: post)).waiting := by
    intro t ht
    have hbatch : (ledger (new fresh1 fresh2)
        (pre ++ .stop :: mid ++ .clearRunning :: post)).batch = [] := by
      have := hL.batch
      simpa [pending, hexited] using this
    have htoken : t ∈ Flow.history (trace (new fresh1 fresh2) 0
        (pre ++ .stop :: mid ++ .clearRunning :: post)) := by
      rw [hhist, List.append_assoc]
      exact token_mem ht
    rw [ledger] at hbatch
    have := Flow.State.settled_iff 25 2 (by rw [hhist]; exact zipIdx_nodup _) htoken
    rw [hbatch] at this
    simpa [ledger] using this
  have early : ∀ t ∈ (messages pre).zipIdx, t ∉ later := by
    intro t ht hmem
    have hlt := token_lt ht
    have hle := hlater t hmem
    rw [messages, List.flatMap_append, List.length_append] at hle
    have : (messages pre).length = (pre.flatMap Act.messages).length := rfl
    omega
  refine ⟨_, _, rfl, rfl, hL1, hL, ?_⟩
  rcases hcase with ⟨hwindow, hwait⟩ | ⟨hwindow, -, hwait⟩
  · have hout : s1.pc.beforeSwap = false := by rw [← hwindow, hexited]; rfl
    simp only [hout, Bool.false_eq_true, false_or]
    refine forall₂_congr fun t ht => ?_
    rw [settled t ht, hwait, List.mem_append]
    simp [early t ht]
  · refine iff_of_true (fun t ht => ?_) (.inl hwindow)
    rw [settled t ht, hwait]
    exact early t ht

/-- The backend is about to write its first batch when a message comes. -/
def beforeStop : List Act :=
  [.start, .countDown, .started, .setup ⟨2, fun _ => 7⟩ ⟨3, fun _ => 7⟩, .test, .lock, .check,
    .wait, .wake, .swap, .trim ⟨0⟩, .append ⟨ascii "x", 1⟩ ⟨4, fun _ => 7⟩]

/-- `stop()` from the clearing of `running_` on, and the rest of the backend's iteration. -/
def afterClear : List Act :=
  [.notify, .write, .write, .resize, .recycle1, .recycle2, .clear, .test, .join]

/-- The message appended before `stop()` is neither written nor cut: it stays in the current
buffer. -/
theorem stop_loses_message :
    messages beforeStop = [⟨ascii "x", 1⟩] ∧ (⟨ascii "x", 1⟩ : Msg).CString ∧
    (Lts.exec step (new ⟨0, fun _ => 7⟩ ⟨1, fun _ => 7⟩)
        (beforeStop ++ [.stop] ++ .clearRunning :: afterClear)).map
      (fun s => (s.owner, s.handed, s.buffers.length, s.currentBuffer.map Buffer.toString)) =
      some (.joined, [[]], 0, some (ascii "x")) :=
  ⟨rfl, ⟨by decide, by decide⟩, rfl⟩

theorem stop_delivers_iff_early :
    (∀ m ∈ messages (beforeStop ++ .stop :: [] ++ .clearRunning :: afterClear), m.CString) ∧
    ∃ s1 s, Lts.exec step (new ⟨0, fun _ => 7⟩ ⟨1, fun _ => 7⟩) (beforeStop ++ .stop :: []) =
        some s1 ∧
      Lts.exec step s1 (.clearRunning :: afterClear) = some s ∧ s.owner = .joined ∧
      ∃ L1 L : Ledger,
        L1 = ledger (new ⟨0, fun _ => 7⟩ ⟨1, fun _ => 7⟩) (beforeStop ++ .stop :: []) ∧
        L = ledger (new ⟨0, fun _ => 7⟩ ⟨1, fun _ => 7⟩)
          (beforeStop ++ .stop :: [] ++ .clearRunning :: afterClear) ∧
        Describes s1 L1 ∧ Describes s L ∧
        ((∀ t ∈ (messages beforeStop).zipIdx, t ∈ L.delivered ∨ t ∈ L.lost 2) ↔
          (s1.pc.beforeSwap = true ∨ ∀ t ∈ (messages beforeStop).zipIdx, t ∉ L1.waiting)) := by
  have hm : ∀ m ∈ messages (beforeStop ++ .stop :: [] ++ .clearRunning :: afterClear),
      m.CString := by
    intro m hm
    obtain rfl : m = ⟨ascii "x", 1⟩ := List.mem_singleton.mp hm
    exact ⟨by decide, by decide⟩
  obtain ⟨s, he, hj⟩ : ∃ s, Lts.exec step (new ⟨0, fun _ => 7⟩ ⟨1, fun _ => 7⟩)
      (beforeStop ++ .stop :: [] ++ .clearRunning :: afterClear) = some s ∧ s.owner = .joined :=
    ⟨_, rfl, rfl⟩
  obtain ⟨s1, h1, h2⟩ := Lts.exec_append_some he
  exact ⟨hm, s1, s, h1, h2, hj, stop_delivers_iff ⟨0, fun _ => 7⟩ ⟨1, fun _ => 7⟩ (by decide)
    beforeStop [] afterClear s1 s hm h1 h2 hj⟩

end AsyncLogging

end MultiThreadLog
