import MultiThreadLog.AsyncLogging.Progress

/-!
# How long a message waits

Within one iteration of `threadFunc` the backend takes everything that is there and writes it: from
any point at most 36 of its steps lie in front of the next swap (`toSwap`) and 30 between the swap
and the flush (`toClear`). What was appended before the swap is then written or was cut by the
overload drop, however many messages come meanwhile (`settled_within`).
-/

namespace MultiThreadLog

open Bytes

/-- The backend has swapped and not yet flushed. -/
def Pc.writing : Pc → Bool
  | .trim | .write _ | .resize | .recycle1 | .recycle2 | .clear => true
  | _ => false

namespace AsyncLogging

variable {s s' : AsyncLogging} {a : Act} {L : Ledger} {n n1 : Nat}

/-- The steps the backend makes before the next swap, at most. -/
def toSwap (s : AsyncLogging) : Nat :=
  match s.pc with
  | .exited | .swap => 0
  | .blocked _ => 1
  | .wait => 2
  | .check => 3
  | .lock => 4
  | .test => 5
  | .setup | .clear => 6
  | .unstarted | .entry | .recycle2 => 7
  | .recycle1 => 8
  | .resize => 9
  | .write k => 10 + (s.buffersToWrite.length - k)
  | .trim => 36

/-- The steps between the swap and the flush. -/
def toClear (s : AsyncLogging) : Nat :=
  match s.pc with
  | .recycle2 => 1
  | .recycle1 => 2
  | .resize => 3
  | .write k => 4 + (s.buffersToWrite.length - k)
  | .trim => 30
  | _ => 0

theorem toSwap_signalled (s : AsyncLogging) (b : List Buffer) (c n : Option Buffer) (o : Owner) :
    toSwap { s with
      buffers := b, nextBuffer := n, currentBuffer := c, pc := s.pc.signalled, owner := o } =
      s.toSwap := by
  cases hp : s.pc <;> simp [toSwap, Pc.signalled, hp]

theorem toClear_signalled (s : AsyncLogging) (b : List Buffer) (c n : Option Buffer) (o : Owner) :
    toClear { s with
      buffers := b, nextBuffer := n, currentBuffer := c, pc := s.pc.signalled, owner := o } =
      s.toClear := by
  cases hp : s.pc <;> simp [toClear, Pc.signalled, hp]

theorem writing_signalled (pc : Pc) : pc.signalled.writing = pc.writing := by cases pc <;> rfl

theorem toSwap_step (hs : Move s a s') (hq : a ≠ .swap) :
    if a.ofBackend then s'.toSwap < s.toSwap else s'.toSwap ≤ s.toSwap := by
  cases hs with
  | put | started | stop | clearRunning | join => exact Nat.le_refl _
  | roll => exact Nat.le_of_eq (toSwap_signalled s ..)
  | notify => exact Nat.le_of_eq (toSwap_signalled s ..)
  | swap => exact absurd rfl hq
  | write hp hb =>
    obtain ⟨hk, -⟩ := List.getElem?_eq_some_iff.mp hb
    simp [toSwap, hp, Act.ofBackend]
    omega
  | drop hp hlen =>
    simp [toSwap, hp, Act.ofBackend]
    omega
  | keep hp hne hlen =>
    simp [toSwap, hp, Act.ofBackend]
    omega
  | written hp hk =>
    simp [toSwap, hp, Act.ofBackend]
    omega
  | start ho hp | countDown hp hr | enter hp | setup hp | exit hp | lock hp | empty hp
  | nonempty hp | wait hp | wake hp | resize hp | has1 hp | recycle1 hp | has2 hp | recycle2 hp
  | clear hp =>
    simp [toSwap, hp, Act.ofBackend]

theorem toClear_step (hw : s.pc.writing = true) (hs : Move s a s') (hq : a ≠ .clear) :
    s'.pc.writing = true ∧
      if a.ofBackend then s'.toClear < s.toClear else s'.toClear ≤ s.toClear := by
  cases hs with
  | put | started | stop | clearRunning | join => exact ⟨hw, Nat.le_refl _⟩
  | roll => exact ⟨(writing_signalled _).trans hw, Nat.le_of_eq (toClear_signalled s ..)⟩
  | notify => exact ⟨(writing_signalled _).trans hw, Nat.le_of_eq (toClear_signalled s ..)⟩
  | clear => exact absurd rfl hq
  | write hp hb =>
    obtain ⟨hk, -⟩ := List.getElem?_eq_some_iff.mp hb
    refine ⟨rfl, ?_⟩
    simp [toClear, hp, Act.ofBackend]
    omega
  | drop hp hlen =>
    refine ⟨rfl, ?_⟩
    simp [toClear, hp, Act.ofBackend]
    omega
  | keep hp hne hlen =>
    refine ⟨rfl, ?_⟩
    simp [toClear, hp, Act.ofBackend]
    omega
  | written hp hk =>
    refine ⟨rfl, ?_⟩
    simp [toClear, hp, Act.ofBackend]
    omega
  | resize hp | has1 hp | recycle1 hp | has2 hp | recycle2 hp =>
    exact ⟨rfl, by simp [toClear, hp, Act.ofBackend]⟩
  | start ho hp | countDown hp hr | enter hp | setup hp | exit hp | lock hp | empty hp
  | nonempty hp | wait hp | wake hp | swap hp =>
    rw [hp] at hw
    cases hw

theorem toSwap_countdown :
    Lts.Countdown step (fun _ => True) Act.ofBackend (fun _ a => a = .swap) toSwap where
  keeps _ _ _ := trivial
  lowers _ hs hq hp := by
    have := toSwap_step (step_move hs) hq
    rwa [if_pos hp] at this
  raisesNot _ hs hq hp := by
    have := toSwap_step (step_move hs) hq
    rwa [if_neg (by simp [hp])] at this

theorem toClear_countdown :
    Lts.Countdown step (fun s => s.pc.writing = true) Act.ofBackend (fun _ a => a = .clear)
      toClear where
  keeps hw hs hq := (toClear_step hw (step_move hs) hq).1
  lowers hw hs hq hp := by
    have := (toClear_step hw (step_move hs) hq).2
    rwa [if_pos hp] at this
  raisesNot hw hs hq hp := by
    have := (toClear_step hw (step_move hs) hq).2
    rwa [if_neg (by simp [hp])] at this

theorem toSwap_le (h : Bounded s) : s.toSwap ≤ 36 := by
  unfold toSwap
  split <;> try omega
  rename_i k hp
  have := h k hp
  omega

/-! ## What is waiting -/

/-- Nothing that came before the `n1`-th message is waiting any more. -/
def Late (n1 : Nat) (L : Ledger) : Prop := ∀ t ∈ L.waiting, n1 ≤ t.2

theorem late_swap : Late n1 (L.run 25 2 (flowOps s n .swap)) := fun _ ht => nomatch ht

theorem Late.step (h : Late n1 L) (hw : WF s) (hn : n1 ≤ n) :
    Late n1 (L.run 25 2 (flowOps s n a)) := by
  by_cases ha : a = .swap
  · rw [ha]
    exact late_swap
  · intro t ht
    rw [waiting_step ha hw.current] at ht
    rcases List.mem_append.mp ht with ht | ht
    · exact h t ht
    · have := List.le_snd_of_mem_zipIdx ht
      omega

theorem late_exec {fresh1 fresh2 : Fresh} (hne : fresh1.addr ≠ fresh2.addr) {pre post : List Act}
    (hn : n1 ≤ (messages pre).length) (h1 : Lts.exec step (new fresh1 fresh2) pre = some s)
    (hlate : Late n1 (ledger (new fresh1 fresh2) pre)) (h2 : Lts.exec step s post = some s') :
    Late n1 (ledger (new fresh1 fresh2) (pre ++ post)) := by
  refine Lts.exec_inv (P := fun post _ => Late n1 (ledger (new fresh1 fresh2) (pre ++ post)))
    (by rwa [List.append_nil]) (fun post v a v' hv ih _ => ?_) h2
  have he : Lts.exec step (new fresh1 fresh2) (pre ++ post) = some v := by
    rw [Lts.exec_append, h1, Option.bind_some, hv]
  rw [← List.append_assoc, ledger_snoc he]
  refine ih.step (wf_exec (wf_new hne) he) ?_
  rw [messages, List.flatMap_append, List.length_append]
  exact Nat.le_trans hn (Nat.le_add_right _ _)

/-- **Settled.** At the head of an iteration every message that no longer waits is handed to
`LogFile` or was cut. -/
theorem settled_of_late {fresh1 fresh2 : Fresh} (hne : fresh1.addr ≠ fresh2.addr)
    {acts : List Act} (hm : ∀ m ∈ messages acts, m.Whole)
    (he : Lts.exec step (new fresh1 fresh2) acts = some s) (hp : s.pc = .test)
    (hlate : Late n1 (ledger (new fresh1 fresh2) acts)) {t : Token}
    (ht : t ∈ (messages acts).zipIdx) (hlt : t.2 < n1) :
    t ∈ (ledger (new fresh1 fresh2) acts).delivered ∨
      t ∈ (ledger (new fresh1 fresh2) acts).lost 2 := by
  have hhist := history_trace (wf_new hne) he
  have hbatch : (ledger (new fresh1 fresh2) acts).batch = [] := by
    have := (describes_exec hne hm he).batch
    simpa [pending, hp] using this
  refine (Flow.State.settled_iff 25 2 (by rw [hhist]; exact zipIdx_nodup _)
    (by rw [hhist]; exact ht)).mpr ⟨?_, fun hw => ?_⟩
  · rw [ledger] at hbatch
    rw [hbatch]
    exact List.not_mem_nil
  · have := hlate t hw
    omega

/-- **A bounded wait.** Whenever the backend has made 68 steps after some point of a run, it has
come to the head of an iteration meanwhile, right after a flush, at which every message appended
before that point was handed to `LogFile` or had been cut. -/
theorem settled_within {fresh1 fresh2 : Fresh} (hne : fresh1.addr ≠ fresh2.addr)
    (pre post : List Act) {s1 : AsyncLogging} (hm : ∀ m ∈ messages (pre ++ post), m.Whole)
    (h1 : Lts.exec step (new fresh1 fresh2) pre = some s1)
    (h2 : Lts.exec step s1 post = some s) (hcount : 68 ≤ post.countP Act.ofBackend) :
    ∃ mid rest u, post = mid ++ rest ∧ Lts.exec step s1 mid = some u ∧ u.pc = .test ∧
      ∀ t ∈ (messages pre).zipIdx, t ∈ (ledger (new fresh1 fresh2) (pre ++ mid)).delivered ∨
        t ∈ (ledger (new fresh1 fresh2) (pre ++ mid)).lost 2 := by
  have hle := toSwap_le (bounded_exec h1)
  obtain ⟨b1, _, r1, u1, e1, hu1, rfl, hc1⟩ :=
    toSwap_countdown.exists_before trivial h2 (by omega)
  rw [e1, Lts.exec_append, hu1, Option.bind_some] at h2
  obtain ⟨v1, hv1, h3⟩ := Lts.exec_cons h2
  have hpre : Lts.exec step (new fresh1 fresh2) (pre ++ b1) = some u1 := by
    rw [Lts.exec_append, h1, Option.bind_some, hu1]
  -- after the swap nothing waits, and the backend writes
  obtain ⟨hw1, hm1⟩ : v1.pc = .trim ∧ v1.toClear = 30 := by
    cases step_move hv1
    exact ⟨rfl, rfl⟩
  have hlate : Late (messages pre).length
      (ledger (new fresh1 fresh2) (pre ++ b1 ++ [.swap])) := by
    rw [ledger_snoc hpre]
    exact late_swap
  rw [e1, List.countP_append, List.countP_cons_of_pos (by rfl)] at hcount
  obtain ⟨b2, _, r2, u2, e2, hu2, rfl, hc2⟩ :=
    toClear_countdown.exists_before (by rw [hw1]; rfl) h3 (by omega)
  rw [e2, Lts.exec_append, hu2, Option.bind_some] at h3
  obtain ⟨v2, hv2, -⟩ := Lts.exec_cons h3
  have hp2 : v2.pc = .test := by
    cases step_move hv2
    rfl
  have hmid : Lts.exec step s1 (b1 ++ [.swap] ++ (b2 ++ [.clear])) = some v2 := by
    rw [Lts.exec_append, Lts.exec_snoc hu1 hv1, Option.bind_some]
    exact Lts.exec_snoc hu2 hv2
  have hsplit : post = b1 ++ [.swap] ++ (b2 ++ [.clear]) ++ r2 := by
    rw [e1, e2]
    simp
  have hfull : Lts.exec step (new fresh1 fresh2)
      (pre ++ (b1 ++ [.swap] ++ (b2 ++ [.clear]))) = some v2 := by
    rw [Lts.exec_append, h1, Option.bind_some, hmid]
  have hn : (messages pre).length ≤ (messages (pre ++ b1 ++ [.swap])).length := by
    simp only [messages, List.flatMap_append, List.length_append]
    omega
  have hlate2 := late_exec hne hn (Lts.exec_snoc hpre hv1) hlate (Lts.exec_snoc hu2 hv2)
  rw [List.append_assoc pre, List.append_assoc pre] at hlate2
  refine ⟨_, r2, v2, hsplit, hmid, hp2, fun t ht => ?_⟩
  refine settled_of_late hne (fun m h => hm m ?_) hfull hp2 hlate2 (token_mem ht) (token_lt ht)
  rw [hsplit, ← List.append_assoc, messages, List.flatMap_append]
  exact List.mem_append_left _ h

end AsyncLogging

end MultiThreadLog
