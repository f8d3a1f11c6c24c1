import MultiThreadLog.Logging.Logger
import MultiThreadLog.Sync.Mutex

/-!
# `CurrentThread::tid()` and the threads of the system

`tid()` asks the kernel once and then reads a thread local, which the log records show as text and
`MutexLock` compares. The kernel gives a number again when its thread has ended, and `fork` copies
the locals of the thread that calls it, number and all, into the first thread of a new process.
There `afterFork` (`Thread.cc`) makes them right; the object `init` registers it with
`pthread_atfork` during static initialization.

The state is the list of all threads of all processes. A process that forks before `init` was
constructed has no handler, and its child keeps a number that is not its own; `forksLate`
leaves this out.
-/

namespace MultiThreadLog

open Bytes Numeral

/-- The thread locals of `CurrentThread.cc`. -/
structure CurrentThread where
  t_cachedTid : Int
  t_tidString : List UInt8
  t_tidStringLength : Nat
  t_threadName : List UInt8

namespace CurrentThread

def initial : CurrentThread := ⟨0, [], 6, ascii "unknown"⟩

section Calls

variable (gettid : Int) (l : CurrentThread)

def cacheTid : CurrentThread :=
  if l.t_cachedTid = 0 then
    { l with
      t_cachedTid := gettid
      t_tidString := tidString gettid
      t_tidStringLength := (blankField 5 gettid).length }
  else l

/-- The locals afterwards, and what is returned. -/
def tid : CurrentThread × Int :=
  let l := if l.t_cachedTid = 0 then l.cacheTid gettid else l
  (l, l.t_cachedTid)

def isMainThread (getpid : Int) : Bool := (l.tid gettid).2 = getpid

def afterFork : CurrentThread :=
  (CurrentThread.tid gettid { l with t_cachedTid := 0, t_threadName := ascii "main" }).1

/-- The constructor of `ThreadNameInitializer`, up to `pthread_atfork`. -/
def threadNameInitializer : CurrentThread :=
  (CurrentThread.tid gettid { l with t_threadName := ascii "main" }).1

/-- The locals are those of the thread `gettid`, or not filled yet. -/
def Of : Prop :=
  l.t_cachedTid = 0 ∨ l.t_cachedTid = gettid ∧ l.t_tidString = tidString gettid ∧
    l.t_tidStringLength = (blankField 5 gettid).length

end Calls

variable {gettid : Int} {l : CurrentThread}

theorem of_initial : initial.Of gettid := .inl rfl

theorem Of.name (h : l.Of gettid) (name : List UInt8) :
    ({ l with t_threadName := name } : CurrentThread).Of gettid := h

/-- `tid()` fills the locals. -/
theorem Of.tid (h : l.Of gettid) : (l.tid gettid).2 = gettid ∧
    (l.tid gettid).1.t_tidString = tidString gettid ∧
    (l.tid gettid).1.t_tidStringLength = (blankField 5 gettid).length := by
  unfold CurrentThread.tid
  by_cases h0 : l.t_cachedTid = 0
  · rw [if_pos h0, cacheTid, if_pos h0]
    exact ⟨rfl, rfl, rfl⟩
  · rw [if_neg h0]
    exact h.resolve_left h0

theorem Of.tid_of (h : l.Of gettid) : (l.tid gettid).1.Of gettid :=
  .inr h.tid

theorem of_afterFork (gettid : Int) (l : CurrentThread) : (l.afterFork gettid).Of gettid :=
  Of.tid_of (.inl rfl)

theorem Of.threadNameInitializer (h : l.Of gettid) :
    (l.threadNameInitializer gettid).Of gettid :=
  (h.name _).tid_of

end CurrentThread

/-- A thread, with what the kernel says to it. -/
structure KernelThread where
  gettid : Int
  getpid : Int
  locals : CurrentThread
  /-- `afterFork` is registered in its process. -/
  atfork : Bool
  /-- It is about to call `afterFork`. -/
  forked : Bool
  /-- Its process began with it. -/
  first : Bool

abbrev Threads : Type := List KernelThread

namespace Threads

inductive Act where
  | exec (gettid : Int)
  | threadNameInitializer (gettid : Int)
  | create (gettid child : Int)
  | fork (gettid child : Int)
  | afterFork (gettid : Int)
  | tid (gettid : Int)
  | setName (gettid : Int) (name : List UInt8)
  | exit (gettid : Int)
  | exitGroup (getpid : Int)

/-- The kernel may give this number to a new thread or process. -/
def Unused (s : Threads) (n : Int) : Prop := 0 < n ∧ ∀ t ∈ s, t.gettid ≠ n ∧ t.getpid ≠ n

instance (s : Threads) (n : Int) : Decidable (s.Unused n) := inferInstanceAs (Decidable (_ ∧ _))

/-- The thread, when it runs code of the program. -/
def running (s : Threads) (n : Int) : Option KernelThread :=
  s.find? fun t => t.gettid = n && !t.forked

/-- Thread `n` changes its locals. -/
def modify (s : Threads) (n : Int) (f : CurrentThread → CurrentThread) : Threads :=
  s.map fun t => if t.gettid = n then { t with locals := f t.locals } else t

def step (s : Threads) : Act → Option Threads
  | .exec n =>
    if s.Unused n then some (s ++ [⟨n, n, .initial, false, false, true⟩]) else none
  | .threadNameInitializer n => (s.running n).bind fun t =>
    if t.first && !t.atfork then
      some ((s.modify n (CurrentThread.threadNameInitializer n)).map fun u =>
        if u.getpid = t.getpid then { u with atfork := true } else u)
    else none
  | .create n child => (s.running n).bind fun t =>
    if s.Unused child then some (s ++ [⟨child, t.getpid, .initial, t.atfork, false, false⟩])
    else none
  | .fork n child => (s.running n).bind fun t =>
    if s.Unused child then some (s ++ [⟨child, child, t.locals, t.atfork, t.atfork, true⟩])
    else none
  | .afterFork n => (s.find? fun t => t.gettid = n && t.forked).map fun _ =>
    s.map fun t =>
      if t.gettid = n then { t with locals := t.locals.afterFork n, forked := false } else t
  | .tid n => (s.running n).map fun _ => s.modify n fun l => (l.tid n).1
  | .setName n name => (s.running n).map fun _ => s.modify n ({ · with t_threadName := name })
  | .exit n => some (s.filter fun t => t.gettid ≠ n)
  | .exitGroup pid => some (s.filter fun t => t.getpid ≠ pid)

/-- A process forks after its `init` was constructed. -/
def Act.late (s : Threads) : Act → Bool
  | .fork n _ => (s.running n).all KernelThread.atfork
  | _ => true

/-- Every process does so, in these steps. -/
def forksLate : Threads → List Act → Bool
  | _, [] => true
  | s, a :: acts => a.late s && (s.step a).all fun s' => forksLate s' acts

/-! ## What a step can do -/

variable {s s' : Threads} {a : Act} {t : KernelThread} {n : Int}

theorem running_some (h : s.running n = some t) :
    t ∈ s ∧ t.gettid = n ∧ t.forked = false := by
  have hp := List.find?_some h
  simp only [Bool.and_eq_true, decide_eq_true_eq, Bool.not_eq_true'] at hp
  exact ⟨List.mem_of_find?_eq_some h, hp⟩

/-- A change of what threads know, which leaves them what is theirs. -/
structure Change (f : KernelThread → KernelThread) : Prop where
  gettid : ∀ t, (f t).gettid = t.gettid
  getpid : ∀ t, (f t).getpid = t.getpid
  first : ∀ t, (f t).first = t.first
  locals : ∀ t, (t.forked = false → t.locals.Of t.gettid) → (f t).forked = false →
    (f t).locals.Of t.gettid

theorem Change.comp {f g : KernelThread → KernelThread} (hg : Change g) (hf : Change f) :
    Change (g ∘ f) where
  gettid t := (hg.gettid _).trans (hf.gettid t)
  getpid t := (hg.getpid _).trans (hf.getpid t)
  first t := (hg.first _).trans (hf.first t)
  locals t h hforked := by
    rw [← hf.gettid t]
    refine hg.locals (f t) (fun hforked' => ?_) hforked
    rw [hf.gettid t]
    exact hf.locals t h hforked'

/-- A change of one thread. -/
theorem Change.one {f : KernelThread → KernelThread} (hgettid : ∀ t, (f t).gettid = t.gettid)
    (hgetpid : ∀ t, (f t).getpid = t.getpid) (hfirst : ∀ t, (f t).first = t.first)
    (hlocals : ∀ t, t.gettid = n → (t.forked = false → t.locals.Of n) → (f t).forked = false →
      (f t).locals.Of n) :
    Change fun t => if t.gettid = n then f t else t := by
  refine ⟨fun t => ?_, fun t => ?_, fun t => ?_, fun t h hforked => ?_⟩
  · split
    · exact hgettid t
    · rfl
  · split
    · exact hgetpid t
    · rfl
  · split
    · exact hfirst t
    · rfl
  · split at hforked
    · rename_i hn
      rw [if_pos hn]
      rw [hn] at h ⊢
      exact hlocals t hn h hforked
    · rename_i hn
      rw [if_neg hn]
      exact h hforked

theorem Change.locals_one {f : CurrentThread → CurrentThread}
    (hf : ∀ l : CurrentThread, l.Of n → (f l).Of n) :
    Change fun t => if t.gettid = n then { t with locals := f t.locals } else t :=
  .one (fun _ => rfl) (fun _ => rfl) (fun _ => rfl) fun t _ h hforked => hf t.locals (h hforked)

/-- A thread begins, changes what it knows, or ends. -/
inductive Move (s : Threads) : Act → Threads → Prop where
  | born {a : Act} {t : KernelThread} (hn : s.Unused t.gettid)
      (hpid : t.first = true ∧ t.getpid = t.gettid ∨ t.first = false ∧ ∃ u ∈ s, t.getpid = u.getpid)
      (hlocals : t.locals = .initial ∨ t.forked = true ∨
        ∃ n u, a = .fork n t.gettid ∧ s.running n = some u ∧ u.atfork = false) :
      Move s a (s ++ [t])
  | change {a : Act} {f : KernelThread → KernelThread} (hf : Change f) : Move s a (s.map f)
  | ended {a : Act} (p : KernelThread → Bool) : Move s a (s.filter p)

theorem step_move (h : s.step a = some s') : Move s a s' := by
  cases a with
  | exec n =>
    obtain ⟨hn, h⟩ := Option.ite_none_right_eq_some.mp h
    cases h
    exact .born hn (.inl ⟨rfl, rfl⟩) (.inl rfl)
  | threadNameInitializer n =>
    obtain ⟨t, -, h⟩ := Option.bind_eq_some_iff.mp h
    obtain ⟨-, h⟩ := Option.ite_none_right_eq_some.mp h
    cases h
    rw [modify, List.map_map]
    refine .change (.comp ?_ (.locals_one fun l hl => hl.threadNameInitializer))
    refine ⟨fun u => ?_, fun u => ?_, fun u => ?_, fun u hu => ?_⟩
    · split <;> rfl
    · split <;> rfl
    · split <;> rfl
    · split <;> exact hu
  | create n child =>
    obtain ⟨t, ht, h⟩ := Option.bind_eq_some_iff.mp h
    obtain ⟨hn, h⟩ := Option.ite_none_right_eq_some.mp h
    cases h
    exact .born hn (.inr ⟨rfl, t, (running_some ht).1, rfl⟩) (.inl rfl)
  | fork n child =>
    obtain ⟨t, ht, h⟩ := Option.bind_eq_some_iff.mp h
    obtain ⟨hn, h⟩ := Option.ite_none_right_eq_some.mp h
    cases h
    refine .born hn (.inl ⟨rfl, rfl⟩) (.inr ?_)
    cases hat : t.atfork with
    | false => exact .inr ⟨n, t, rfl, ht, hat⟩
    | true => exact .inl rfl
  | afterFork n =>
    obtain ⟨t, -, rfl⟩ := Option.map_eq_some_iff.mp h
    exact .change (.one (fun _ => rfl) (fun _ => rfl) (fun _ => rfl) fun t _ _ _ =>
      CurrentThread.of_afterFork n t.locals)
  | tid n =>
    obtain ⟨t, -, rfl⟩ := Option.map_eq_some_iff.mp h
    exact .change (.locals_one fun l hl => hl.tid_of)
  | setName n name =>
    obtain ⟨t, -, rfl⟩ := Option.map_eq_some_iff.mp h
    exact .change (.locals_one fun l hl => hl.name name)
  | exit n =>
    cases h
    exact .ended _
  | exitGroup pid =>
    cases h
    exact .ended _

/-! ## The numbers -/

structure Inv (s : Threads) : Prop where
  apart : (s.map KernelThread.gettid).Nodup
  positive : ∀ t ∈ s, 0 < t.gettid
  leader : ∀ t ∈ s, t.first = true ↔ t.gettid = t.getpid
  locals : ∀ t ∈ s, t.forked = false → t.locals.Of t.gettid

theorem inv_nil : Inv [] := ⟨List.nodup_nil, nofun, nofun, nofun⟩

theorem Inv.move (h : s.Inv) (hs : Move s a s')
    (hlate : a.late s = true) : s'.Inv := by
  obtain ⟨hapart, hpositive, hleader, hlocals⟩ := h
  cases hs with
  | @born t hn hpid hl =>
    refine ⟨?_, fun u hu => ?_, fun u hu => ?_, fun u hu hforked => ?_⟩
    · rw [List.map_append, List.nodup_append]
      refine ⟨hapart, by simp, fun x hx y hy => ?_⟩
      obtain ⟨u, hu, rfl⟩ := List.mem_map.mp hx
      rw [List.mem_singleton.mp hy]
      exact (hn.2 u hu).1
    all_goals rcases List.mem_append.mp hu with hu | hu
    · exact hpositive u hu
    · rw [List.mem_singleton.mp hu]
      exact hn.1
    · exact hleader u hu
    · rw [List.mem_singleton.mp hu]
      rcases hpid with ⟨hfirst, hpid⟩ | ⟨hfirst, v, hv, hpid⟩
      · simp [hfirst, hpid]
      · simp [hfirst, hpid, Ne.symm (hn.2 v hv).2]
    · exact hlocals u hu hforked
    · obtain rfl := List.mem_singleton.mp hu
      rcases hl with hl | hl | ⟨n, v, ha, hv, hat⟩
      · rw [hl]
        exact CurrentThread.of_initial
      · rw [hl] at hforked
        cases hforked
      · rw [ha, Act.late, hv, Option.all_some, hat] at hlate
        cases hlate
  | change hf =>
    refine ⟨?_, fun u hu => ?_, fun u hu => ?_, fun u hu hforked => ?_⟩
    · rw [List.map_map]
      rwa [show KernelThread.gettid ∘ _ = KernelThread.gettid from funext hf.gettid]
    all_goals
      obtain ⟨t, ht, rfl⟩ := List.mem_map.mp hu
    · rw [hf.gettid]
      exact hpositive t ht
    · rw [hf.gettid, hf.getpid, hf.first]
      exact hleader t ht
    · rw [hf.gettid]
      exact hf.locals t (hlocals t ht) hforked
  | ended p =>
    have hsub : (s.filter p).Sublist s := List.filter_sublist
    exact ⟨(hsub.map _).nodup hapart, fun t ht => hpositive t (hsub.subset ht),
      fun t ht => hleader t (hsub.subset ht), fun t ht => hlocals t (hsub.subset ht)⟩

theorem Inv.exec {acts : List Act} (h : s.Inv) (hlate : forksLate s acts = true)
    (he : Lts.exec step s acts = some s') : s'.Inv := by
  induction acts generalizing s with
  | nil =>
    cases he
    exact h
  | cons a acts ih =>
    obtain ⟨u, hu, he⟩ := Lts.exec_cons he
    rw [forksLate, Bool.and_eq_true, hu, Option.all_some] at hlate
    exact ih (h.move (step_move hu) hlate.1) hlate.2 he

/-- What the threads know of themselves, in between a `fork` and its handlers excepted. -/
structure Known (s : Threads) : Prop where
  tid : ∀ t ∈ s, t.forked = false → (t.locals.tid t.gettid).2 = t.gettid
  /-- A record shows the text of the number. -/
  text : ∀ t ∈ s, t.forked = false →
    (t.locals.tid t.gettid).1.t_tidString = tidString t.gettid ∧
    (t.locals.tid t.gettid).1.t_tidStringLength = (blankField 5 t.gettid).length
  main : ∀ t ∈ s, t.forked = false → t.locals.isMainThread t.gettid t.getpid = t.first
  /-- `MutexLock` can tell the threads by it. -/
  tids : ∃ tids : Tids {t // t ∈ s ∧ t.forked = false},
    ∀ t, tids.tid t = (t.1.locals.tid t.1.gettid).2

theorem Inv.known (h : s.Inv) : s.Known := by
  have htid : ∀ t ∈ s, t.forked = false → (t.locals.tid t.gettid).2 = t.gettid :=
    fun t ht hforked => (h.locals t ht hforked).tid.1
  refine ⟨htid, fun t ht hforked => (h.locals t ht hforked).tid.2, fun t ht hforked => ?_,
    ⟨⟨fun t => (t.1.locals.tid t.1.gettid).2, fun t u e => ?_, fun t e => ?_⟩, fun _ => rfl⟩⟩
  · rw [CurrentThread.isMainThread, htid t ht hforked, Bool.eq_iff_iff, decide_eq_true_eq]
    exact (h.leader t ht).symm
  · rw [htid t.1 t.2.1 t.2.2, htid u.1 u.2.1 u.2.2] at e
    exact Subtype.ext (List.inj_on_of_nodup_map h.apart t.2.1 u.2.1 e)
  · rw [htid t.1 t.2.1 t.2.2] at e
    have hpos := h.positive t.1 t.2.1
    omega

/-- **`tid()` is the thread's own number**, in every state of every run of the system in which
processes fork late, whatever ends and whichever numbers are given again. -/
theorem tid_known (acts : List Act) (hlate : forksLate [] acts = true) (s : Threads)
    (he : Lts.exec step [] acts = some s) : s.Known :=
  (inv_nil.exec hlate he).known

/-- A thread forks and ends, and the new process gets its number for a thread of its own. -/
def reuse : List Act :=
  [.exec 100, .threadNameInitializer 100, .create 100 101, .tid 101, .fork 101 102, .afterFork 102,
    .exit 101, .create 102 101, .tid 101]

theorem tid_known_reuse : ∃ s, Lts.exec step [] reuse = some s ∧ s.Known :=
  ⟨_, rfl, tid_known reuse rfl _ rfl⟩

end Threads

end MultiThreadLog
