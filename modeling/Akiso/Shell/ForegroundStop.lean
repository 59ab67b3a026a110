import Mathlib.Data.List.Nodup
import Mathlib.Data.List.Perm.Subperm
import Akiso.Shell.Ledger

set_option autoImplicit false

namespace Akiso.Shell

open Transition

def reportOf (job : JobId) (state : ShellState) : ShellEvent → List (Nat × Report)
  | .main (.waited (some pid)) =>
    match waitpid (inGroup (state.jobs job).pgid) true pid state.children with
    | some outcome => [(pid, outcome.1)]
    | none => []
  | _ => []

def reportsOf (job : JobId) : ShellState → List ShellEvent → List (Nat × Report)
  | _, [] => []
  | state, event :: rest =>
    reportOf job state event ++
      match shellStep state event with
      | some next => reportsOf job next rest
      | none => []

def latestReport (pid : Nat) (reports : List (Nat × Report)) : Option Report :=
  (reports.reverse.find? fun report => report.1 = pid).map Prod.snd

def Alive (state : ShellState) (pid : Nat) : Prop :=
  ∃ child ∈ state.children, child.pid = pid ∧ child.status ≠ .zombie

def Zombie (state : ShellState) (pid : Nat) : Prop :=
  ∃ child ∈ state.children, child.pid = pid ∧ child.status = .zombie

structure Awaited (job : JobId) (state : ShellState) : Prop where
  waiting : state.control = .waiting job .start
  unhandled : state.handler = .idle
  unlisted : job ∉ state.currentJob
  counted : (state.jobs job).pipelineSize = state.members job
  grouped : ∀ child ∈ state.children, child.pgid = (state.jobs job).pgid → child.job = job
  pids : DistinctPids state.children

def Control.awaits (job : JobId) : Control → Bool
  | .waiting other _ => other = job
  | _ => false

def InLoop (job : JobId) (state : ShellState) (_ : ShellEvent) : Prop :=
  state.control.awaits job = true

instance (job : JobId) (state : ShellState) (event : ShellEvent) :
    Decidable (InLoop job state event) :=
  inferInstanceAs (Decidable (state.control.awaits job = true))

def AllStopped (job : JobId) (start : ShellState) (events : List ShellEvent)
    (last : ShellState) : Prop :=
  ∀ child ∈ start.children, child.job = job →
    Alive last child.pid ∧ latestReport child.pid (reportsOf job start events) = some .stopped

def StopsApart (job : JobId) (start : ShellState) (events : List ShellEvent) : Prop :=
  ((reportsOf job start events).map Prod.fst).Nodup ∧
    ∀ child ∈ start.children, child.job = job →
      child.status ≠ .zombie ∧ .child (.exited child.pid) ∉ events

/-- Everything that can happen while the loop waits; the handler is masked. -/
inductive LoopStep (job : JobId) (wait : WaitState) (state : ShellState) :
    ShellEvent → ShellState → Prop where
  | changed {event : ChildEvent} (pid : Nat) (status : ChildStatus) (alive : Alive state pid)
      (exited : ∀ gone, event = .exited gone ↔ gone = pid ∧ status = .zombie) :
      LoopStep job wait state (.child event)
        { state with children := setStatus pid status state.children }
  | ended (child : Child) (present : child ∈ state.children)
      (matched : child.pgid = (state.jobs job).pgid)
      (read : reportOf job state (.main (.waited (some child.pid))) = [(child.pid, .ended)]) :
      LoopStep job wait state (.main (.waited (some child.pid)))
        (waitForFgJob { state with children := reapChild child.pid state.children } job wait .ended)
  | stopped (child : Child) (present : child ∈ state.children)
      (matched : child.pgid = (state.jobs job).pgid) (alive : child.status ≠ .zombie)
      (read : reportOf job state (.main (.waited (some child.pid))) = [(child.pid, .stopped)]) :
      LoopStep job wait state (.main (.waited (some child.pid)))
        (waitForFgJob { state with children := setStatus child.pid (.stopped true) state.children }
          job wait .stopped)
  | left : LoopStep job wait state (.main (.waited none)) (state.goto .terminal)

theorem loopStep_of_taken {job : JobId} {wait : WaitState} {state next : ShellState}
    {event : ShellEvent} (here : state.control = .waiting job wait)
    (idle : state.handler = .idle) (taken : shellStep state event = some next) :
    LoopStep job wait state event next := by
  cases event with
  | child event =>
    unfold shellStep childStep at taken
    dsimp only at taken
    split at taken
    next pid =>
      split at taken <;> cases taken
      next live => exact .changed pid .zombie live (by simp [eq_comm])
    next pid =>
      split at taken <;> cases taken
      next live =>
        obtain ⟨child, present, same, running⟩ := live
        exact .changed pid _ ⟨child, present, same, by simp [running]⟩ (by simp)
    next pid =>
      split at taken <;> cases taken
      next live => exact .changed pid _ live (by simp)
  | handler event =>
    cases event with
    | delivered => simp [shellStep, handlerStep, here, Control.unmasked] at taken
    | polled pid => cases pid <;> simp [shellStep, handlerStep, idle] at taken
    | swept pid => cases pid <;> simp [shellStep, handlerStep, idle] at taken
  | main event =>
    simp only [shellStep, mainStep, idle, if_true, controlStep, here] at taken
    unfold waitStep at taken
    split at taken
    next pid =>
      obtain ⟨outcome, returned, rfl⟩ := Option.map_eq_some_iff.mp taken
      have read : reportOf job state (.main (.waited (some pid))) = [(pid, outcome.1)] := by
        simp [reportOf, returned]
      obtain ⟨child, present, rfl, matched, report⟩ := waitpid_cases returned
      have group : child.pgid = (state.jobs job).pgid := by simpa [inGroup] using matched
      rcases report with ⟨zombie, rfl⟩ | ⟨stopped, _, rfl⟩
      · exact .ended child present group read
      · exact .stopped child present group (by simp [stopped]) read
    next =>
      split at taken <;> cases taken
      exact .left
    next => simp at taken

theorem distinctPids_inj {children : List Child} (distinct : DistinctPids children)
    {child other : Child} (present : child ∈ children) (otherPresent : other ∈ children)
    (same : child.pid = other.pid) : child = other :=
  List.inj_on_of_nodup_map (List.pairwise_map.mpr distinct) present otherPresent same

theorem pids_setStatus (pid : Nat) (status : ChildStatus) (children : List Child) :
    (setStatus pid status children).map Child.pid = children.map Child.pid := by
  unfold setStatus
  rw [List.map_map]
  apply List.map_congr_left
  intro child _
  dsimp only [Function.comp]
  split <;> rfl

section Zombies

variable {state : ShellState}

theorem not_zombie (distinct : DistinctPids state.children) {pid : Nat}
    (alive : Alive state pid) : ¬ Zombie state pid := by
  rintro ⟨other, otherPresent, otherPid, zombie⟩
  obtain ⟨child, present, childPid, living⟩ := alive
  have same := distinctPids_inj distinct present otherPresent (childPid.trans otherPid.symm)
  exact living (same ▸ zombie)

theorem alive_or_zombie {pid : Nat} (known : pid ∈ state.children.map Child.pid) :
    Alive state pid ∨ Zombie state pid := by
  obtain ⟨child, present, same⟩ := List.mem_map.mp known
  by_cases zombie : child.status = .zombie
  · exact Or.inr ⟨child, present, same, zombie⟩
  · exact Or.inl ⟨child, present, same, zombie⟩

theorem zombie_setStatus (distinct : DistinctPids state.children) {pid : Nat}
    (alive : Alive state pid) (status : ChildStatus) (other : Nat) :
    Zombie { state with children := setStatus pid status state.children } other ↔
      Zombie state other ∨ other = pid ∧ status = .zombie := by
  constructor
  · rintro ⟨changed, member, rfl, zombie⟩
    obtain ⟨old, present, rfl⟩ := List.mem_map.mp member
    by_cases same : old.pid = pid
    · rw [if_pos same] at zombie ⊢
      exact Or.inr ⟨same, zombie⟩
    · rw [if_neg same] at zombie ⊢
      exact Or.inl ⟨old, present, rfl, zombie⟩
  · rintro (zombie | ⟨rfl, rfl⟩)
    · have apart : other ≠ pid := by
        rintro rfl
        exact not_zombie distinct alive zombie
      obtain ⟨child, present, rfl, dead⟩ := zombie
      exact ⟨child, List.mem_map.mpr ⟨child, present, if_neg apart⟩, rfl, dead⟩
    · obtain ⟨child, present, rfl, _⟩ := alive
      exact ⟨{ child with status := .zombie },
        List.mem_map.mpr ⟨child, present, if_pos rfl⟩, rfl, rfl⟩

end Zombies

theorem reportsOf_cons {job : JobId} {state next : ShellState} {event : ShellEvent}
    {rest : List ShellEvent} (taken : shellStep state event = some next) :
    reportsOf job state (event :: rest) = reportOf job state event ++ reportsOf job next rest := by
  simp [reportsOf, taken]

theorem waitForFgJob_waits (state : ShellState) {job : JobId} {wait : WaitState} {report : Report}
    (short : (wait.absorb report).stoppedProcessCount ≠ (state.jobs job).pipelineSize) :
    waitForFgJob state job wait report = state.goto (.waiting job (wait.absorb report)) := by
  simp [waitForFgJob, short]

theorem waitForFgJob_lists (state : ShellState) {job : JobId} {wait : WaitState} {report : Report}
    (full : (wait.absorb report).stoppedProcessCount = (state.jobs job).pipelineSize) :
    waitForFgJob state job wait report =
      ((listJob state job).setJob job { state.jobs job with fg := false, stopped := true }).goto
        .terminal := by
  simp [waitForFgJob, full]

section Runs

variable {job : JobId} {wait : WaitState} {state last : ShellState} {events : List ShellEvent}

theorem eq_of_left (left : state.control.awaits job = false)
    (ran : run shellStep state events = some last)
    (during : Always shellStep (InLoop job) state events) : events = [] ∧ last = state := by
  cases events with
  | nil =>
    cases ran
    exact ⟨rfl, rfl⟩
  | cons event rest =>
    have here : state.control.awaits job = true := during.1
    simp [left] at here

-- After the report of an end the counter stays at zero, and the job is never listed.
theorem unlisted_of_fallingApart (here : state.control = .waiting job wait)
    (idle : state.handler = .idle) (unlisted : job ∉ state.currentJob)
    (apart : wait.fallingApart = true) (zero : wait.stoppedProcessCount = 0)
    (size : 0 < (state.jobs job).pipelineSize) (ran : run shellStep state events = some last)
    (during : Always shellStep (InLoop job) state events) : job ∉ last.currentJob := by
  induction events generalizing state wait with
  | nil =>
    cases ran
    exact unlisted
  | cons event rest ih =>
    obtain ⟨next, taken, ran⟩ := run_cons ran
    have later := during.2 next taken
    cases loopStep_of_taken here idle taken with
    | changed pid status alive exited =>
      apply ih _ _ _ apart zero _ ran later
      · exact here
      · exact idle
      · exact unlisted
      · exact size
    | ended child present matched read =>
      have count : (wait.absorb .ended).stoppedProcessCount = 0 := by
        simp [WaitState.absorb, zero]
      rw [waitForFgJob_waits _ (by rw [count]; exact size.ne)] at ran later
      apply ih rfl _ _ _ count _ ran later
      · exact idle
      · exact unlisted
      · rfl
      · exact size
    | stopped child present matched alive read =>
      have count : (wait.absorb .stopped).stoppedProcessCount = 0 := by
        simp [WaitState.absorb, apart]
      rw [waitForFgJob_waits _ (by rw [count]; exact size.ne)] at ran later
      apply ih rfl _ _ _ count _ ran later
      · exact idle
      · exact unlisted
      · exact apart
      · exact size
    | left =>
      obtain ⟨_, rfl⟩ := eq_of_left rfl ran later
      exact unlisted

end Runs

structure Counting (job : JobId) (wait : WaitState) (state : ShellState) : Prop where
  waiting : state.control = .waiting job wait
  unhandled : state.handler = .idle
  unlisted : job ∉ state.currentJob
  whole : wait.fallingApart = false
  fresh : wait.stopped = false → wait.stoppedProcessCount = 0
  populated : ∀ child ∈ state.children, child.pgid = (state.jobs job).pgid →
    child.job = job ∧ 0 < (state.jobs job).pipelineSize
  pids : DistinctPids state.children

structure Tally (job : JobId) (count : Nat) (state : ShellState) (events : List ShellEvent)
    (last : ShellState) : Prop where
  total : count + (reportsOf job state events).length = (state.jobs job).pipelineSize
  stops : ∀ report ∈ reportsOf job state events, report.2 = .stopped ∧
    ∃ child ∈ state.children, child.job = job ∧ child.pid = report.1
  pids : last.children.map Child.pid = state.children.map Child.pid
  distinct : DistinctPids last.children
  zombies : ∀ pid, Zombie last pid ↔ Zombie state pid ∨ .child (.exited pid) ∈ events

namespace Counting

variable {job : JobId} {wait : WaitState} {state : ShellState}

theorem setStatus (counting : Counting job wait state) (pid : Nat) (status : ChildStatus) :
    Counting job wait { state with children := Shell.setStatus pid status state.children } where
  waiting := counting.waiting
  unhandled := counting.unhandled
  unlisted := counting.unlisted
  whole := counting.whole
  fresh := counting.fresh
  populated child present matched := by
    obtain ⟨old, oldPresent, _, pgid, same⟩ := mem_setStatus present
    rw [← same]
    exact counting.populated old oldPresent (pgid.trans matched)
  pids := distinctPids_setStatus counting.pids

theorem absorb_stopped (counting : Counting job wait state) :
    Counting job (wait.absorb .stopped) (state.goto (.waiting job (wait.absorb .stopped))) where
  waiting := rfl
  unhandled := counting.unhandled
  unlisted := counting.unlisted
  whole := counting.whole
  fresh := by simp [WaitState.absorb]
  populated := counting.populated
  pids := counting.pids

theorem tally_setStatus {last : ShellState} {events : List ShellEvent} {event : ShellEvent}
    {pid count later : Nat} {status : ChildStatus} {next : ShellState}
    (counting : Counting job wait state) (alive : Alive state pid)
    (taken : shellStep state event = some next)
    (children : next.children = Shell.setStatus pid status state.children)
    (exited : ∀ gone, event = .child (.exited gone) ↔ gone = pid ∧ status = .zombie)
    (read : ∀ report ∈ reportOf job state event, report.2 = .stopped ∧
      ∃ child ∈ state.children, child.job = job ∧ child.pid = report.1)
    (size : (next.jobs job).pipelineSize = (state.jobs job).pipelineSize)
    (counted : count + (reportOf job state event).length = later)
    (tally : Tally job later next events last) : Tally job count state (event :: events) last where
  total := by
    rw [reportsOf_cons taken, List.length_append, ← size, ← tally.total]
    omega
  stops report member := by
    rw [reportsOf_cons taken] at member
    rcases List.mem_append.mp member with first | rest
    · exact read report first
    · obtain ⟨stop, child, present, belongs, same⟩ := tally.stops report rest
      rw [children] at present
      obtain ⟨old, oldPresent, oldPid, _, oldJob⟩ := mem_setStatus present
      exact ⟨stop, old, oldPresent, oldJob.trans belongs, oldPid.trans same⟩
  pids := by rw [tally.pids, children, pids_setStatus]
  distinct := tally.distinct
  zombies other := by
    have marked := zombie_setStatus counting.pids alive status other
    have same : Zombie next other ↔
        Zombie { state with children := Shell.setStatus pid status state.children } other := by
      unfold Zombie
      rw [children]
    rw [tally.zombies other, same, marked, ← exited other, List.mem_cons, or_assoc,
      @eq_comm _ event]

theorem tally {events : List ShellEvent} {last : ShellState} (counting : Counting job wait state)
    (ran : run shellStep state events = some last)
    (during : Always shellStep (InLoop job) state events) (listed : job ∈ last.currentJob) :
    Tally job wait.stoppedProcessCount state events last := by
  induction events generalizing state wait with
  | nil =>
    cases ran
    exact absurd listed counting.unlisted
  | cons event rest ih =>
    obtain ⟨next, taken, ran⟩ := run_cons ran
    have later := during.2 next taken
    cases loopStep_of_taken counting.waiting counting.unhandled taken with
    | changed pid status alive exited =>
      apply counting.tally_setStatus alive taken rfl
      · simpa using exited
      · simp [reportOf]
      · rfl
      · rfl
      · exact ih (counting.setStatus pid status) ran later
    | ended child present matched read =>
      have size := (counting.populated child present matched).2
      have count : (wait.absorb .ended).stoppedProcessCount = 0 := by
        cases stopped : wait.stopped <;> simp [WaitState.absorb, stopped, counting.fresh]
      rw [waitForFgJob_waits _ (by rw [count]; exact size.ne)] at ran later
      refine absurd listed (unlisted_of_fallingApart ?_ ?_ ?_ ?_ count ?_ ran later)
      · rfl
      · exact counting.unhandled
      · exact counting.unlisted
      · rfl
      · exact size
    | stopped child present matched alive read =>
      have belongs := (counting.populated child present matched).1
      have count : (wait.absorb .stopped).stoppedProcessCount = wait.stoppedProcessCount + 1 := by
        simp [WaitState.absorb, counting.whole]
      have marked := counting.setStatus child.pid (.stopped true)
      let absorbed :=
        { state with children := Shell.setStatus child.pid (.stopped true) state.children }
      have reported : ∀ report ∈ reportOf job state (.main (.waited (some child.pid))),
          report.2 = .stopped ∧
            ∃ child ∈ state.children, child.job = job ∧ child.pid = report.1 := by
        rw [read]
        simpa using ⟨child, present, belongs, rfl⟩
      by_cases full : (wait.absorb .stopped).stoppedProcessCount = (state.jobs job).pipelineSize
      · rw [waitForFgJob_lists absorbed full] at taken ran later
        obtain ⟨rfl, rfl⟩ := eq_of_left rfl ran later
        apply counting.tally_setStatus ⟨child, present, rfl, alive⟩ taken rfl (by simp) reported
        · simp [absorbed, ShellState.goto, ShellState.setJob]
        · rfl
        · constructor
          · simpa [absorbed, reportsOf, ShellState.goto, ShellState.setJob, read, count] using full
          · simp [reportsOf]
          · rfl
          · exact marked.pids
          · simp
      · rw [waitForFgJob_waits absorbed full] at taken ran later
        apply counting.tally_setStatus ⟨child, present, rfl, alive⟩ taken rfl (by simp) reported
        · rfl
        · rfl
        · rw [read, List.length_singleton, ← count]
          exact ih marked.absorb_stopped ran later
    | left =>
      obtain ⟨_, rfl⟩ := eq_of_left rfl ran later
      exact absurd listed counting.unlisted

end Counting

theorem Awaited.counting {job : JobId} {start : ShellState} (awaited : Awaited job start) :
    Counting job .start start where
  waiting := awaited.waiting
  unhandled := awaited.unhandled
  unlisted := awaited.unlisted
  whole := rfl
  fresh := fun _ => rfl
  populated child present matched := by
    have belongs := awaited.grouped child present matched
    refine ⟨belongs, ?_⟩
    rw [awaited.counted]
    exact membersOf_pos.mpr ⟨child, present, belongs⟩
  pids := awaited.pids

def memberPids (job : JobId) (children : List Child) : List Nat :=
  (children.filter fun child => child.job = job).map Child.pid

theorem mem_memberPids {job : JobId} {children : List Child} {pid : Nat} :
    pid ∈ memberPids job children ↔ ∃ child ∈ children, child.job = job ∧ child.pid = pid := by
  simp [memberPids, and_assoc]

theorem memberPids_nodup {children : List Child} (job : JobId) (distinct : DistinctPids children) :
    (memberPids job children).Nodup :=
  List.pairwise_map.mpr (distinct.filter _)

theorem memberPids_length (job : JobId) (children : List Child) :
    (memberPids job children).length = membersOf job children := by
  rw [memberPids, List.length_map, membersOf, List.countP_eq_length_filter]

theorem latestReport_stopped {pid : Nat} {reports : List (Nat × Report)}
    (stops : ∀ report ∈ reports, report.2 = .stopped) :
    latestReport pid reports = some .stopped ↔ pid ∈ reports.map Prod.fst := by
  unfold latestReport
  constructor
  · intro latest
    obtain ⟨report, found, _⟩ := Option.map_eq_some_iff.mp latest
    have same : report.1 = pid := by simpa using List.find?_some found
    exact List.mem_map.mpr ⟨report, List.mem_reverse.mp (List.mem_of_find?_eq_some found), same⟩
  · intro reported
    obtain ⟨report, member, same⟩ := List.mem_map.mp reported
    cases found : reports.reverse.find? fun report => report.1 = pid with
    | none =>
      have missing := List.find?_eq_none.mp found report (List.mem_reverse.mpr member)
      simp [same] at missing
    | some latest =>
      have member := List.mem_reverse.mp (List.mem_of_find?_eq_some found)
      simp [stops latest member]

theorem foreground_stop_iff {job : JobId} {start last : ShellState} {events : List ShellEvent}
    (awaited : Awaited job start) (ran : run shellStep start events = some last)
    (during : Always shellStep (InLoop job) start events) (listed : job ∈ last.currentJob) :
    AllStopped job start events last ↔ StopsApart job start events := by
  have tally := awaited.counting.tally ran during listed
  have distinct := memberPids_nodup job awaited.pids
  have stops : ∀ report ∈ reportsOf job start events, report.2 = .stopped :=
    fun report member => (tally.stops report member).1
  have counted : ((reportsOf job start events).map Prod.fst).length =
      (memberPids job start.children).length := by
    rw [List.length_map, memberPids_length, ← members_eq, ← awaited.counted, ← tally.total]
    exact (Nat.zero_add _).symm
  constructor
  · intro all
    have covered : memberPids job start.children ⊆ (reportsOf job start events).map Prod.fst := by
      intro pid member
      obtain ⟨child, present, belongs, rfl⟩ := mem_memberPids.mp member
      exact (latestReport_stopped stops).mp (all child present belongs).2
    have same := (distinct.subperm covered).perm_of_length_le counted.le
    refine ⟨same.nodup_iff.mp distinct, fun child present belongs => ?_⟩
    have living := not_zombie tally.distinct (all child present belongs).1
    rw [tally.zombies] at living
    exact ⟨fun zombie => living (Or.inl ⟨child, present, rfl, zombie⟩),
      fun exited => living (Or.inr exited)⟩
  · rintro ⟨apart, living⟩ child present belongs
    have members : (reportsOf job start events).map Prod.fst ⊆ memberPids job start.children := by
      intro pid member
      obtain ⟨report, read, rfl⟩ := List.mem_map.mp member
      exact mem_memberPids.mpr (tally.stops report read).2
    have same := (apart.subperm members).perm_of_length_le counted.ge
    constructor
    · have known : child.pid ∈ last.children.map Child.pid := by
        rw [tally.pids]
        exact List.mem_map_of_mem present
      apply (alive_or_zombie known).resolve_right
      rw [tally.zombies]
      rintro (⟨other, otherPresent, samePid, zombie⟩ | exited)
      · have one := distinctPids_inj awaited.pids otherPresent present samePid
        exact (living child present belongs).1 (one ▸ zombie)
      · exact (living child present belongs).2 exited
    · apply (latestReport_stopped stops).mpr
      exact same.symm.subset (mem_memberPids.mpr ⟨child, present, belongs, rfl⟩)

def stageOf (pid : Nat) : Child :=
  { pid, pgid := 100, job := 0, status := .running }

def pairAwaited : ShellState :=
  { initialShell with
    jobs := fun _ => { backgroundJob 2 with pgid := 100, fg := true }
    children := [stageOf 100, stageOf 101]
    control := .waiting 0 .start }

theorem pairAwaited_awaited : Awaited 0 pairAwaited where
  waiting := rfl
  unhandled := rfl
  unlisted := by simp [pairAwaited, initialShell]
  counted := by
    simp [pairAwaited, stageOf, ShellState.members, backgroundJob]
  grouped := by simp [pairAwaited, stageOf]
  pids := by simp [DistinctPids, pairAwaited, stageOf]

def stopBoth : List ShellEvent :=
  [.child (.stopped 100), .main (.waited (some 100)), .child (.stopped 101),
    .main (.waited (some 101))]

theorem foreground_stop_both : AllStopped 0 pairAwaited stopBoth
    (arrival shellStep (InLoop 0) pairAwaited stopBoth) := by
  have ran : run shellStep pairAwaited stopBoth =
      some (arrival shellStep (InLoop 0) pairAwaited stopBoth) := by rfl
  refine (foreground_stop_iff pairAwaited_awaited ran (by decide) (by decide)).mpr ⟨?_, ?_⟩
  · decide
  · simp [pairAwaited, stageOf, stopBoth]

def stopTwice : List ShellEvent :=
  [.child (.stopped 100), .main (.waited (some 100)), .child (.continued 100),
    .child (.stopped 100), .main (.waited (some 100))]

theorem foreground_stop_fails :
    ¬ ∀ job start events last, Awaited job start → run shellStep start events = some last →
      Always shellStep (InLoop job) start events → job ∈ last.currentJob →
        AllStopped job start events last := by
  intro claim
  have all := claim 0 pairAwaited stopTwice
    (arrival shellStep (InLoop 0) pairAwaited stopTwice) pairAwaited_awaited rfl (by decide)
    (by decide) (stageOf 101) (by simp [pairAwaited]) rfl
  have unreported : latestReport 101 (reportsOf 0 pairAwaited stopTwice) = none := by decide
  simp [stageOf, unreported] at all

end Akiso.Shell
