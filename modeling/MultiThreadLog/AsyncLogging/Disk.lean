import MultiThreadLog.AsyncLogging.Latency
import MultiThreadLog.LogFile.Files
import MultiThreadLog.LogFile.Shared

/-!
# `AsyncLogging` with its `LogFile`

The backend owns a local variable `LogFile output(basename_, rollSize_, false)`, made when
`threadFunc` starts and destroyed when it returns. `System` puts the two together: a step of
`AsyncLogging` performs the calls it issues on the `LogFile`, with the clock readings and the
answers of `fwrite_unlocked` that the label brings.

`Stored` is the invariant: the files hold what was handed on, in groups of whole texts, and from the
flush at the end of an iteration to the first write of the next one all of it is written out.
-/

namespace MultiThreadLog

open Bytes

/-- A step of the system, with the environment of its call on `output`. -/
structure Tick where
  act : Act
  rs : List FwriteResult
  now : Int
  now' : Int

/-- The call, as one on a `LogFile`. -/
def Call.request (t : Tick) : Call → LogFile.Request
  | .append bytes => .append bytes bytes.length t.rs t.now t.now'
  | .flush => .flush

structure System where
  logging : AsyncLogging
  /-- The variable `output` of `threadFunc`. -/
  output : Option LogFile
  /-- The files it left behind. -/
  files : List AppendFile

namespace System

open AsyncLogging (Ledger Token Describes textOf ledger Entry.text)

def new (fresh1 fresh2 : Fresh) : System := ⟨.new fresh1 fresh2, none, []⟩

/-- All log files. -/
def disk (s : System) : List AppendFile :=
  match s.output with
  | some l => l.opened
  | none => s.files

/-- The calls that a step to `logging` issues. -/
def issued (s : System) (logging : AsyncLogging) : List Call :=
  logging.output.drop s.logging.output.length

section Step

variable (proc : Process) (basename : List UInt8) (rollSize : Int)

/-- `output` after these calls. -/
def carry (s : System) (logging : AsyncLogging) (t : Tick) : Option LogFile :=
  s.output.bind fun l => Lts.exec (LogFile.perform proc) l ((s.issued logging).map (Call.request t))

def step (s : System) (t : Tick) : Option System :=
  (s.logging.step t.act).bind fun logging =>
    match t.act with
    | .setup _ _ =>
      some { s with logging, output := some (.new proc basename rollSize 3 1024 t.now) }
    | .trim _ | .write | .clear =>
      (s.carry proc logging t).map fun l => { s with logging, output := some l }
    | .test =>
      -- behind the loop the last flush, and the end of `output`
      if logging.pc = .exited then
        (s.carry proc logging t).map fun l => { logging, output := none, files := l.destroy }
      else some { s with logging }
    | _ => some { s with logging }

end Step

variable {proc : Process} {basename : List UInt8} {rollSize : Int} {s s' : System}
  {logging : AsyncLogging} {t : Tick} {l l' : LogFile} {ts : List (List UInt8)}

theorem issued_append {cs : List Call} (h : logging.output = s.logging.output ++ cs) :
    s.issued logging = cs := by
  rw [issued, h, List.drop_left]

theorem step_logging (h : s.step proc basename rollSize t = some s') :
    s.logging.step t.act = some s'.logging := by
  obtain ⟨logging, hl, h⟩ := Option.bind_eq_some_iff.mp h
  rw [hl]
  split at h
  · cases h
    rfl
  · obtain ⟨l, -, rfl⟩ := Option.map_eq_some_iff.mp h
    rfl
  · obtain ⟨l, -, rfl⟩ := Option.map_eq_some_iff.mp h
    rfl
  · obtain ⟨l, -, rfl⟩ := Option.map_eq_some_iff.mp h
    rfl
  · split at h
    · obtain ⟨l, -, rfl⟩ := Option.map_eq_some_iff.mp h
      rfl
    · cases h
      rfl
  · cases h
    rfl

/-- A run of the system is one of `AsyncLogging`. -/
theorem exec_logging {ticks : List Tick}
    (h : Lts.exec (step proc basename rollSize) s ticks = some s') :
    Lts.exec AsyncLogging.step s.logging (ticks.map Tick.act) = some s'.logging := by
  induction ticks generalizing s with
  | nil =>
    cases h
    rfl
  | cons t ticks ih =>
    obtain ⟨u, hu, h⟩ := Lts.exec_cons h
    rw [List.map_cons, Lts.exec, step_logging hu, Option.bind_some, ih h]

/-! ## One call -/

/-- `l` holds the texts `ts`, and the files it has replaced are written out. -/
structure Keeps (proc : Process) (l : LogFile) (ts : List (List UInt8)) : Prop where
  closed : l.ClosedFlushed
  holds : ∃ f gs g, LogFile.Holds proc l f gs g ∧ gs.flatten ++ g = ts

theorem Keeps.perform {c : Call} (h : Keeps proc l ts) (hrs : ∀ r ∈ t.rs, r.error = false)
    (hl : LogFile.perform proc l (c.request t) = some l') :
    Keeps proc l' (ts ++ c.bytes?.toList) := by
  obtain ⟨hclosed, f, gs, g, hholds, e⟩ := h
  have hacc : (c.request t).Accepted := by
    cases c with
    | append bytes => exact ⟨rfl, hrs⟩
    | flush => trivial
  have hs := LogFile.step_of_perform hacc hl
  obtain ⟨l1, f', gs', g', hs', e', hholds'⟩ := hholds.step (c.request t).op
  obtain rfl : l1 = l' := Option.some_inj.mp (hs'.symm.trans hs)
  refine ⟨hclosed.step hs, f', gs', g', hholds', ?_⟩
  rw [e', e]
  cases c <;> rfl

theorem keeps_new {now : Int} (hnow : 0 < now) :
    Keeps proc (.new proc basename rollSize 3 1024 now) [] ∧
      ∀ f ∈ (LogFile.new proc basename rollSize 3 1024 now).opened, LogFile.Flushed f := by
  have hholds : LogFile.Holds proc (.new proc basename rollSize 3 1024 now) _ [] [] :=
    LogFile.holds_new basename rollSize 3 1024 hnow
  refine ⟨⟨LogFile.closedFlushed_new basename rollSize 3 1024 now, _, _, _, hholds, rfl⟩,
    fun f hf => ?_⟩
  rw [hholds.opened_eq] at hf
  rcases List.mem_append.mp hf with hf | hf
  · exact LogFile.closedFlushed_new basename rollSize 3 1024 now f hf
  · rw [List.mem_singleton.mp hf]
    rfl

/-! ## The invariant -/

def Stored (proc : Process) (s : System) : Prop :=
  match s.logging.pc with
  | .unstarted | .entry | .setup => s.output = none ∧ s.files = [] ∧ s.logging.handed = []
  | .test | .lock | .check | .wait | .blocked _ | .swap | .trim =>
    ∃ l, s.output = some l ∧ Keeps proc l s.logging.handed ∧ ∀ f ∈ l.opened, LogFile.Flushed f
  | .write _ | .resize | .recycle1 | .recycle2 | .clear =>
    ∃ l, s.output = some l ∧ Keeps proc l s.logging.handed
  | .exited => s.output = none ∧ ∃ l, s.files = l.destroy ∧ Keeps proc l s.logging.handed

theorem stored_new (fresh1 fresh2 : Fresh) : Stored proc (new fresh1 fresh2) := ⟨rfl, rfl, rfl⟩

theorem Stored.signalled (h : Stored proc s) (b : List Buffer) (c n : Option Buffer) (o : Owner) :
    Stored proc { s with logging := { s.logging with
      buffers := b, nextBuffer := n, currentBuffer := c, pc := s.logging.pc.signalled,
      owner := o } } := by
  cases hp : s.logging.pc <;> simp only [Stored, hp, Pc.signalled] at h ⊢ <;> exact h

/-- A call on `output`. -/
theorem carry_append (h : s.output = some l) (hk : Keeps proc l ts) {c : Call}
    (hrs : ∀ r ∈ t.rs, r.error = false) (hout : logging.output = s.logging.output ++ [c])
    (hl : s.carry proc logging t = some l') :
    LogFile.perform proc l (c.request t) = some l' ∧ Keeps proc l' (ts ++ c.bytes?.toList) := by
  unfold carry at hl
  rw [h, issued_append hout, Option.bind_some, List.map_singleton] at hl
  obtain ⟨u, hu, e⟩ := Lts.exec_cons hl
  cases e
  exact ⟨hu, hk.perform hrs hu⟩

theorem carry_nil (h : s.output = some l) (hout : logging.output = s.logging.output)
    (hl : s.carry proc logging t = some l') : l' = l := by
  unfold carry at hl
  rw [h, issued_append (hout.trans (List.append_nil _).symm)] at hl
  cases hl
  rfl

/-- **One step** of the system. -/
theorem Stored.step (h : Stored proc s) (hs : s.step proc basename rollSize t = some s')
    (hrs : ∀ r ∈ t.rs, r.error = false) (hnow : 0 < t.now) : Stored proc s' := by
  obtain ⟨logging, hl, hs⟩ := Option.bind_eq_some_iff.mp hs
  obtain ⟨a, rs, now, now'⟩ := t
  cases AsyncLogging.step_move hl with
  | put | started | stop | clearRunning | join =>
    cases hs
    exact h
  | roll | notify =>
    cases hs
    exact h.signalled ..
  | start _ hp | countDown hp | lock hp | empty hp | nonempty hp | wait hp | wake hp | swap hp
  | resize hp | has1 hp | recycle1 hp | has2 hp | recycle2 hp =>
    cases hs
    simp only [Stored, hp] at h
    exact h
  | setup hp =>
    cases hs
    simp only [Stored, hp] at h
    obtain ⟨hkeeps, hflushed⟩ := @keeps_new proc basename rollSize _ hnow
    refine ⟨_, rfl, ?_, hflushed⟩
    show Keeps proc _ s.logging.handed
    rw [h.2.2]
    exact hkeeps
  | enter hp =>
    cases hs
    simp only [Stored, hp] at h
    exact h
  | exit hp =>
    simp only [Stored, hp] at h
    obtain ⟨l, hout, hkeeps, -⟩ := h
    obtain ⟨l', hl', rfl⟩ := Option.map_eq_some_iff.mp hs
    refine ⟨rfl, l', rfl, ?_⟩
    have := (carry_append (c := .flush) hout hkeeps hrs rfl hl').2
    simpa [AsyncLogging.handed, Call.bytes?, List.filterMap_cons] using this
  | drop hp =>
    simp only [Stored, hp] at h
    obtain ⟨l, hout, hkeeps, -⟩ := h
    obtain ⟨l', hl', rfl⟩ := Option.map_eq_some_iff.mp hs
    refine ⟨l', rfl, ?_⟩
    have := (carry_append hout hkeeps hrs rfl hl').2
    simpa [AsyncLogging.handed, Call.bytes?] using this
  | write hp =>
    simp only [Stored, hp] at h
    obtain ⟨l, hout, hkeeps⟩ := h
    obtain ⟨l', hl', rfl⟩ := Option.map_eq_some_iff.mp hs
    refine ⟨l', rfl, ?_⟩
    have := (carry_append hout hkeeps hrs rfl hl').2
    simpa [AsyncLogging.handed, Call.bytes?] using this
  | keep hp =>
    simp only [Stored, hp] at h
    obtain ⟨l, hout, hkeeps, -⟩ := h
    obtain ⟨l', hl', rfl⟩ := Option.map_eq_some_iff.mp hs
    obtain rfl := carry_nil hout rfl hl'
    exact ⟨l', rfl, hkeeps⟩
  | written hp =>
    simp only [Stored, hp] at h
    obtain ⟨l, hout, hkeeps⟩ := h
    obtain ⟨l', hl', rfl⟩ := Option.map_eq_some_iff.mp hs
    obtain rfl := carry_nil hout rfl hl'
    exact ⟨l', rfl, hkeeps⟩
  | clear hp =>
    simp only [Stored, hp] at h
    obtain ⟨l, hout, hkeeps⟩ := h
    obtain ⟨l', hl', rfl⟩ := Option.map_eq_some_iff.mp hs
    obtain ⟨hflush, hk⟩ := carry_append (c := .flush) hout hkeeps hrs rfl hl'
    refine ⟨l', rfl, ?_, hkeeps.closed.flush hflush⟩
    simpa [AsyncLogging.handed, Call.bytes?, List.filterMap_cons] using hk

/-- The environment of a run: no write fails, and the clock is past the epoch. -/
def Sound (ticks : List Tick) : Prop :=
  ∀ t ∈ ticks, (∀ r ∈ t.rs, r.error = false) ∧ 0 < t.now

theorem stored_exec {fresh1 fresh2 : Fresh} {ticks : List Tick} (hsound : Sound ticks)
    (h : Lts.exec (step proc basename rollSize) (new fresh1 fresh2) ticks = some s) :
    Stored proc s := by
  refine Lts.exec_inv (P := fun ticks s => Sound ticks → Stored proc s)
    (fun _ => stored_new fresh1 fresh2) (fun ticks s t s' _ ih hs hsound => ?_) h hsound
  obtain ⟨hrs, hnow⟩ := hsound t (List.mem_append_right _ List.mem_cons_self)
  exact (ih fun x hx => hsound x (List.mem_append_left _ hx)).step hs hrs hnow

/-! ## The log on disk -/

/-- What `output` had to leave on the disk by now is written out. -/
def atRest : Pc → Bool
  | .write _ | .resize | .recycle1 | .recycle2 | .clear => false
  | _ => true

/-- The files hold the texts `ts`, in groups, and their names are in order. -/
structure Holding (s : System) (ts : List (List UInt8)) : Prop where
  contents : ∃ groups : List (List (List UInt8)), groups.flatten = ts ∧
    s.disk.map AppendFile.content = groups.map List.flatten
  names : (∀ f ∈ s.disk, f.created < 2932897 * 86400) →
    (s.disk.map AppendFile.name).Pairwise (· < ·)
  flushed : atRest s.logging.pc = true → ∀ f ∈ s.disk, LogFile.Flushed f

theorem Keeps.contents (h : Keeps proc l ts) : ∃ groups : List (List (List UInt8)),
    groups.flatten = ts ∧ l.opened.map AppendFile.content = groups.map List.flatten := by
  obtain ⟨-, f, gs, g, hholds, e⟩ := h
  exact ⟨gs ++ [g], by simpa using e, by simp [hholds.opened_eq, hholds.closed, hholds.current]⟩

theorem Keeps.names (h : Keeps proc l ts) (hyear : ∀ f ∈ l.opened, f.created < 2932897 * 86400) :
    (l.opened.map AppendFile.name).Pairwise (· < ·) := by
  obtain ⟨-, f, gs, g, hholds, -⟩ := h
  exact hholds.names_increasing hyear

theorem Stored.holding (h : Stored proc s) : Holding s s.logging.handed := by
  cases hp : s.logging.pc with
  | unstarted | entry | setup =>
    simp only [Stored, hp] at h
    obtain ⟨e1, e2, e3⟩ := h
    refine ⟨⟨[], by rw [e3]; rfl, ?_⟩, fun _ => ?_, fun _ f hf => ?_⟩
    · rw [disk, e1, e2]
      rfl
    · rw [disk, e1, e2]
      exact .nil
    · rw [disk, e1, e2] at hf
      cases hf
  | test | lock | check | wait | blocked | swap | trim =>
    simp only [Stored, hp] at h
    obtain ⟨l, e, hk, hflushed⟩ := h
    have hd : s.disk = l.opened := by rw [disk, e]
    exact ⟨by rw [hd]; exact hk.contents, by rw [hd]; exact hk.names, fun _ => by
      rw [hd]; exact hflushed⟩
  | write | resize | recycle1 | recycle2 | clear =>
    simp only [Stored, hp] at h
    obtain ⟨l, e, hk⟩ := h
    have hd : s.disk = l.opened := by rw [disk, e]
    exact ⟨by rw [hd]; exact hk.contents, by rw [hd]; exact hk.names, fun hr => by
      rw [hp] at hr; cases hr⟩
  | exited =>
    simp only [Stored, hp] at h
    obtain ⟨e, l, hfiles, hk⟩ := h
    have hd : s.disk = l.destroy := by rw [disk, e, hfiles]
    refine ⟨?_, fun hyear => ?_, fun _ => by rw [hd]; exact hk.closed.destroy⟩
    · rw [hd, LogFile.map_destroy AppendFile.content fun _ => rfl]
      exact hk.contents
    · rw [hd] at hyear ⊢
      rw [LogFile.map_destroy AppendFile.name fun _ => rfl]
      refine hk.names fun f hf => ?_
      -- closing keeps the second a file was made in
      have hmem := List.mem_map_of_mem (f := AppendFile.created) hf
      rw [← LogFile.map_destroy AppendFile.created fun _ => rfl] at hmem
      obtain ⟨f', hf', e'⟩ := List.mem_map.mp hmem
      rw [← e']
      exact hyear f' hf'

/-- Groups of images are images of groups. -/
theorem exists_groups {α β : Type} {p : α → β} {gs : List (List β)} {l : List α}
    (h : gs.flatten = l.map p) :
    ∃ ls : List (List α), ls.flatten = l ∧ ls.map (List.map p) = gs := by
  induction gs generalizing l with
  | nil => exact ⟨[], by simpa using h.symm, rfl⟩
  | cons g gs ih =>
    obtain ⟨l1, l2, rfl, e1, e2⟩ := List.map_eq_append_iff.mp h.symm
    obtain ⟨ls, rfl, e⟩ := ih e2.symm
    exact ⟨l1 :: ls, rfl, by rw [List.map_cons, e, e1]⟩

/-- The files on the disk and the ledger. -/
structure OnDisk (s : System) (L : Ledger) : Prop where
  /-- Every text that was handed on, a buffer or a notice, is whole in one file, in order. -/
  groups : ∃ groups : List (List (Flow.Entry Token Timestamp)), groups.flatten = L.handed ∧
    s.disk.map AppendFile.content = groups.map fun g => g.flatMap Entry.text
  /-- A reader finds them by the names of the files. -/
  sorted : ∀ fs : List AppendFile, fs.Perm s.disk → (∀ f ∈ s.disk, f.created < 2932897 * 86400) →
    (fs.map AppendFile.name).Pairwise (· ≤ ·) →
    fs.flatMap AppendFile.content = L.handed.flatMap Entry.text
  flushed : atRest s.logging.pc = true → ∀ f ∈ s.disk, LogFile.Flushed f

theorem Holding.onDisk {L : Ledger} (h : Holding s s.logging.handed) (hL : Describes s.logging L) :
    OnDisk s L := by
  obtain ⟨⟨gs, e, hcontents⟩, hnames, hflushed⟩ := h
  rw [hL.handed] at e
  obtain ⟨groups, hgroups, rfl⟩ := exists_groups e
  have htexts : s.disk.map AppendFile.content = groups.map fun g => g.flatMap Entry.text := by
    rw [hcontents, List.map_map]
    rfl
  refine ⟨⟨groups, hgroups, htexts⟩, fun fs hperm hyear hsorted => ?_, hflushed⟩
  rw [LogFile.eq_of_sorted (hnames hyear) hperm hsorted, List.flatMap_def, htexts, ← hgroups,
    List.flatMap_def, List.map_flatten, List.flatten_flatten, List.map_map]
  rfl

theorem onDisk_exec {fresh1 fresh2 : Fresh} (hne : fresh1.addr ≠ fresh2.addr) {ticks : List Tick}
    (hsound : Sound ticks) (hm : ∀ m ∈ AsyncLogging.messages (ticks.map Tick.act), m.Whole)
    (he : Lts.exec (step proc basename rollSize) (new fresh1 fresh2) ticks = some s) :
    OnDisk s (ledger (.new fresh1 fresh2) (ticks.map Tick.act)) :=
  (stored_exec hsound he).holding.onDisk
    (AsyncLogging.describes_exec hne hm (exec_logging he))

/-- What was handed on are some of the messages, in order. -/
theorem delivered_sublist {fresh1 fresh2 : Fresh} (hne : fresh1.addr ≠ fresh2.addr)
    {ticks : List Tick}
    (he : Lts.exec (step proc basename rollSize) (new fresh1 fresh2) ticks = some s) :
    (ledger (.new fresh1 fresh2) (ticks.map Tick.act)).delivered.Sublist
      (AsyncLogging.messages (ticks.map Tick.act)).zipIdx := by
  rw [← AsyncLogging.history_trace (AsyncLogging.wf_new hne) (exec_logging he)]
  refine List.Sublist.trans ?_ (Flow.State.run_kept_sublist 25 2 _)
  rw [Flow.State.kept_eq, List.append_assoc]
  exact List.sublist_append_left ..

/-- **The log on disk**, in every state of every run in which no write fails. The messages that the
files hold are a subsequence of those appended, and the files hold what the ledger says. -/
theorem disk_holds_log (proc : Process) (basename : List UInt8) (rollSize : Int)
    (fresh1 fresh2 : Fresh) (hne : fresh1.addr ≠ fresh2.addr) (ticks : List Tick)
    (hsound : Sound ticks) (hm : ∀ m ∈ AsyncLogging.messages (ticks.map Tick.act), m.Whole)
    (s : System)
    (he : Lts.exec (step proc basename rollSize) (new fresh1 fresh2) ticks = some s) :
    ∃ L : Ledger, L = ledger (.new fresh1 fresh2) (ticks.map Tick.act) ∧
      Describes s.logging L ∧ OnDisk s L ∧
      L.delivered.Sublist (AsyncLogging.messages (ticks.map Tick.act)).zipIdx := by
  exact ⟨_, rfl, AsyncLogging.describes_exec hne hm (exec_logging he),
    onDisk_exec hne hsound hm he, delivered_sublist hne he⟩

/-- A step at noon of the second day, on a disk with room. -/
def atNoon (a : Act) : Tick := ⟨a, [⟨kLargeBuffer, false⟩], 129600, 129600⟩

/-- A message is appended before the backend opens the first file. -/
def opening : List Tick :=
  [Act.append ⟨ascii "hi", 2⟩ ⟨2, fun _ => 7⟩, .start, .countDown, .started,
    .setup ⟨2, fun _ => 7⟩ ⟨3, fun _ => 7⟩].map atNoon

/-- An iteration of the backend with nothing queued. -/
def iteration : List Tick :=
  [Act.test, .lock, .check, .wait, .wake, .swap, .trim ⟨0⟩, .write, .write, .resize, .recycle1,
    .recycle2, .clear].map atNoon

theorem sound_atNoon (acts : List Act) : Sound (acts.map atNoon) := by
  intro t ht
  obtain ⟨a, -, rfl⟩ := List.mem_map.mp ht
  exact ⟨fun r hr => by rw [List.mem_singleton.mp hr], show (0 : Int) < 129600 by decide⟩

theorem whole_hi : ∀ m ∈ [(⟨ascii "hi", 2⟩ : Msg)], m.Whole := by
  intro m hm
  obtain rfl := List.mem_singleton.mp hm
  exact ⟨by decide, by decide⟩

theorem disk_holds_log_iteration :
    ∃ s, Lts.exec (step ⟨ascii "host", 7⟩ (ascii "log") 1000)
        (new ⟨0, fun _ => 7⟩ ⟨1, fun _ => 7⟩) (opening ++ iteration) = some s ∧
      s.disk.map AppendFile.content = [ascii "hi"] ∧
      ∃ L : Ledger, L = ledger (.new ⟨0, fun _ => 7⟩ ⟨1, fun _ => 7⟩)
          ((opening ++ iteration).map Tick.act) ∧
        Describes s.logging L ∧ OnDisk s L ∧
        L.delivered.Sublist
          (AsyncLogging.messages ((opening ++ iteration).map Tick.act)).zipIdx := by
  obtain ⟨s, he, hd⟩ : ∃ s, Lts.exec (step ⟨ascii "host", 7⟩ (ascii "log") 1000)
      (new ⟨0, fun _ => 7⟩ ⟨1, fun _ => 7⟩) (opening ++ iteration) = some s ∧
        s.disk.map AppendFile.content = [ascii "hi"] := ⟨_, rfl, rfl⟩
  refine ⟨s, he, hd, disk_holds_log ⟨ascii "host", 7⟩ (ascii "log") 1000 ⟨0, fun _ => 7⟩
    ⟨1, fun _ => 7⟩ (by decide) (opening ++ iteration) ?_ whole_hi s he⟩
  rw [opening, iteration, ← List.map_append]
  exact sound_atNoon _

/-- **A message reaches the disk in bounded time**: whenever the backend has made 68 steps after
some point of a run, there was a moment meanwhile at which every message appended before that point
was written out to the files or had been cut by an overload drop. -/
theorem written_within (proc : Process) (basename : List UInt8) (rollSize : Int)
    (fresh1 fresh2 : Fresh) (hne : fresh1.addr ≠ fresh2.addr) (pre post : List Tick)
    (hsound : Sound (pre ++ post))
    (hm : ∀ m ∈ AsyncLogging.messages ((pre ++ post).map Tick.act), m.Whole) (s1 s : System)
    (h1 : Lts.exec (step proc basename rollSize) (new fresh1 fresh2) pre = some s1)
    (h2 : Lts.exec (step proc basename rollSize) s1 post = some s)
    (hcount : 68 ≤ post.countP fun t => t.act.ofBackend) :
    ∃ mid rest u, post = mid ++ rest ∧ Lts.exec (step proc basename rollSize) s1 mid = some u ∧
      (∀ f ∈ u.disk, LogFile.Flushed f) ∧
      ∃ L : Ledger, L = ledger (.new fresh1 fresh2) ((pre ++ mid).map Tick.act) ∧ OnDisk u L ∧
        ∀ t ∈ (AsyncLogging.messages (pre.map Tick.act)).zipIdx,
          t ∈ L.delivered ∨ t ∈ L.lost 2 := by
  obtain ⟨mid', rest', u', e, hu', hp, hsettled⟩ := AsyncLogging.settled_within hne
    (pre.map Tick.act) (post.map Tick.act)
    (fun m h => hm m (by rwa [List.map_append])) (exec_logging h1) (exec_logging h2)
    (by rwa [List.countP_map])
  obtain ⟨mid, rest, rfl, rfl, -⟩ := List.map_eq_append_iff.mp e
  obtain ⟨u, hu, -⟩ := Lts.exec_append_some h2
  obtain rfl : u.logging = u' := Option.some_inj.mp ((exec_logging hu).symm.trans hu')
  have hfull : Lts.exec (step proc basename rollSize) (new fresh1 fresh2) (pre ++ mid) =
      some u := by
    rw [Lts.exec_append, h1, Option.bind_some, hu]
  have hdisk := onDisk_exec hne
    (fun t ht => hsound t (by rw [← List.append_assoc]; exact List.mem_append_left _ ht))
    (fun m h => hm m (by
      rw [← List.append_assoc, List.map_append, AsyncLogging.messages, List.flatMap_append]
      exact List.mem_append_left _ h)) hfull
  refine ⟨mid, rest, u, rfl, hu, hdisk.flushed (by rw [hp]; rfl), _, rfl, hdisk, ?_⟩
  rw [List.map_append]
  exact hsettled

theorem written_within_sixIterations :
    ∃ s1 s, Lts.exec (step ⟨ascii "host", 7⟩ (ascii "log") 1000)
        (new ⟨0, fun _ => 7⟩ ⟨1, fun _ => 7⟩) opening = some s1 ∧
      Lts.exec (step ⟨ascii "host", 7⟩ (ascii "log") 1000) s1
        (List.replicate 6 iteration).flatten = some s ∧
      ∃ mid rest u, (List.replicate 6 iteration).flatten = mid ++ rest ∧
        Lts.exec (step ⟨ascii "host", 7⟩ (ascii "log") 1000) s1 mid = some u ∧
        (∀ f ∈ u.disk, LogFile.Flushed f) ∧
        ∃ L : Ledger, L = ledger (.new ⟨0, fun _ => 7⟩ ⟨1, fun _ => 7⟩)
            ((opening ++ mid).map Tick.act) ∧ OnDisk u L ∧
          ∀ t ∈ (AsyncLogging.messages (opening.map Tick.act)).zipIdx,
            t ∈ L.delivered ∨ t ∈ L.lost 2 := by
  obtain ⟨s, he⟩ : ∃ s, Lts.exec (step ⟨ascii "host", 7⟩ (ascii "log") 1000)
      (new ⟨0, fun _ => 7⟩ ⟨1, fun _ => 7⟩) (opening ++ (List.replicate 6 iteration).flatten) =
        some s := ⟨_, rfl⟩
  obtain ⟨s1, h1, h2⟩ := Lts.exec_append_some he
  refine ⟨s1, s, h1, h2, written_within ⟨ascii "host", 7⟩ (ascii "log") 1000 ⟨0, fun _ => 7⟩
    ⟨1, fun _ => 7⟩ (by decide) opening (List.replicate 6 iteration).flatten (fun t ht => ?_)
    whole_hi s1 s h1 h2 (by decide)⟩
  rcases List.mem_append.mp ht with ht | ht
  · exact sound_atNoon _ t ht
  · obtain ⟨ts, hts, ht⟩ := List.mem_flatten.mp ht
    rw [(List.mem_replicate.mp hts).2] at ht
    exact sound_atNoon _ t ht

end System

end MultiThreadLog
