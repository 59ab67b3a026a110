import Akiso.Shell.Ledger

set_option autoImplicit false

namespace Akiso.Shell

def Accounted (state : ShellState) : Prop :=
  ∀ job ∈ state.currentJob, (state.jobs job).pipelineSize = state.members job

-- The sweep of handle_chld reaps no member of a job that stays listed or is in the shell's hands:
-- being started, or taken off the list by fg or bg.
def AttributedSweep (state : ShellState) : ShellEvent → Prop
  | .handler (.swept (some pid)) =>
    ∀ child ∈ state.children, child.pid = pid → state.control.held ≠ some child.job ∧
      child.job ∉ (removeJobHandle state.jobs pid state.currentJob).2
  | _ => True

def Control.grouped : Control → Option JobId
  | .starting _ true _ => none
  | control => control.held

def Handler.head : Handler → Option JobId
  | .visiting (job :: _) => some job
  | _ => none

def ShellState.owned (state : ShellState) : List JobId :=
  state.control.grouped.toList ++ state.currentJob

structure Counted (size members : Nat) : Prop where
  exact : size = members
  bounded : size < buffSize

/-- A wait that can still list the job has reaped none of its members. -/
structure Waits (size members : Nat) (wait : WaitState) : Prop where
  positive : 0 < size
  bounded : size < buffSize
  exact : wait.fallingApart = false → size = members
  broken : wait.fallingApart = true → wait.stoppedProcessCount = 0
  fresh : wait.stopped = false → wait.stoppedProcessCount = 0

structure Starts (size members remaining : Nat) (first : Bool) : Prop where
  total : members + remaining = size
  bounded : size < buffSize
  empty : first = true → members = 0 ∧ 0 < remaining
  populated : first = false → 0 < members

def HeldCounted (state : ShellState) : Prop :=
  match state.control with
  | .starting job first remaining =>
    job < state.nextJob ∧ job ∉ state.currentJob ∧
      Starts (state.jobs job).pipelineSize (state.members job) remaining first
  | .waiting job wait => Waits (state.jobs job).pipelineSize (state.members job) wait
  | .fetched job =>
    Counted (state.jobs job).pipelineSize (state.members job) ∧ 0 < state.members job
  | .moved job =>
    Counted (state.jobs job).pipelineSize (state.members job) ∧ 0 < state.members job
  | .reaping => state.currentJob = []
  | _ => True

structure Consistent (state : ShellState) : Prop where
  ledger : Ledger state.children state.jobs state.nextJob state.owned
  counted : ∀ job ∈ state.currentJob,
    Counted (state.jobs job).pipelineSize (state.members job)
  populated : ∀ job ∈ state.currentJob, state.handler.head ≠ some job → 0 < state.members job
  visits : ∀ handles, state.handler = .visiting handles →
    handles.Nodup ∧ handles ⊆ state.currentJob
  held : HeldCounted state

theorem grouped_eq_none {control : Control} (free : control.held = none) :
    control.grouped = none := by
  cases control with
  | starting job first remaining => simp [Control.held] at free
  | waiting job wait => simp [Control.held] at free
  | fetched job => simp [Control.held] at free
  | moved job => simp [Control.held] at free
  | _ => rfl

theorem heldCounted_of_free {state : ShellState} (free : state.control.held = none)
    (reaping : state.control = .reaping → state.currentJob = []) : HeldCounted state := by
  unfold HeldCounted
  split
  next same => simp [same, Control.held] at free
  next same => simp [same, Control.held] at free
  next same => simp [same, Control.held] at free
  next same => simp [same, Control.held] at free
  next same => exact reaping same
  next => exact True.intro

theorem HeldCounted.transfer {state next : ShellState} (held : HeldCounted state)
    (control : next.control = state.control) (nextJob : next.nextJob = state.nextJob)
    (fewer : next.currentJob ⊆ state.currentJob)
    (same : ∀ job, state.control.held = some job →
      (next.jobs job).pipelineSize = (state.jobs job).pipelineSize ∧
        next.members job = state.members job) : HeldCounted next := by
  unfold HeldCounted at held ⊢
  rw [control]
  split at held
  next job first remaining here =>
    obtain ⟨size, members⟩ := same job (by simp [here, Control.held])
    rw [size, members, nextJob]
    exact ⟨held.1, fun listed => held.2.1 (fewer listed), held.2.2⟩
  next job wait here =>
    obtain ⟨size, members⟩ := same job (by simp [here, Control.held])
    rw [size, members]
    exact held
  next job here =>
    obtain ⟨size, members⟩ := same job (by simp [here, Control.held])
    rw [size, members]
    exact held
  next job here =>
    obtain ⟨size, members⟩ := same job (by simp [here, Control.held])
    rw [size, members]
    exact held
  next =>
    rw [held] at fewer
    exact List.subset_nil.mp fewer
  next => exact True.intro

theorem update_accounts (jobs : JobId → Job) (id : JobId) (job : Job)
    (pgid : job.pgid = (jobs id).pgid) (size : job.pipelineSize = (jobs id).pipelineSize)
    (other : JobId) :
    (Function.update jobs id job other).pgid = (jobs other).pgid ∧
      (Function.update jobs id job other).pipelineSize = (jobs other).pipelineSize := by
  by_cases same : other = id
  next => subst same; simp [pgid, size]
  next => simp [same]

namespace Consistent

variable {state next : ShellState}

theorem nodup (consistent : Consistent state) : state.currentJob.Nodup :=
  (List.nodup_append.mp consistent.ledger.nodup).2.1

theorem listed_owned {job : JobId} (listed : job ∈ state.currentJob) : job ∈ state.owned :=
  List.mem_append_right _ listed

theorem held_unlisted (consistent : Consistent state) {job : JobId}
    (held : state.control.held = some job) : job ∉ state.currentJob := by
  by_cases grouped : state.control.grouped = some job
  next =>
    have nodup := consistent.ledger.nodup
    simp only [ShellState.owned, grouped, Option.toList_some, List.singleton_append,
      List.nodup_cons] at nodup
    exact nodup.1
  next =>
    have counted := consistent.held
    unfold HeldCounted at counted
    split at counted
    next other first remaining here =>
      simp only [here, Control.held, Option.some.injEq] at held
      exact held ▸ counted.2.1
    all_goals simp_all [Control.held, Control.grouped]

theorem frame (consistent : Consistent state) (children : next.children = state.children)
    (jobs : ∀ job, (next.jobs job).pgid = (state.jobs job).pgid ∧
      (next.jobs job).pipelineSize = (state.jobs job).pipelineSize)
    (nextJob : next.nextJob = state.nextJob) (current : next.currentJob = state.currentJob)
    (handler : next.handler = state.handler) (owned : next.owned.Sublist state.owned)
    (held : HeldCounted next) : Consistent next where
  ledger := by
    rw [children, nextJob]
    have fewer := consistent.ledger.restrict owned.subset (owned.nodup consistent.ledger.nodup)
    exact fewer.relabel fun job _ => (jobs job).1
  counted job listed := by
    rw [(jobs job).2, members_eq, children]
    exact consistent.counted job (current ▸ listed)
  populated job listed elsewhere := by
    rw [members_eq, children]
    exact consistent.populated job (current ▸ listed) (handler ▸ elsewhere)
  visits handles visiting := by
    rw [current]
    exact consistent.visits handles (handler ▸ visiting)
  held := held

theorem release (consistent : Consistent state) (children : next.children = state.children)
    (jobs : next.jobs = state.jobs) (nextJob : next.nextJob = state.nextJob)
    (current : next.currentJob = state.currentJob) (handler : next.handler = state.handler)
    (free : next.control.held = none)
    (reaping : next.control = .reaping → next.currentJob = []) : Consistent next := by
  refine consistent.frame children (fun job => by rw [jobs]; exact ⟨rfl, rfl⟩) nextJob current
    handler ?_ (heldCounted_of_free free reaping)
  have owned : next.owned = state.currentJob := by
    simp [ShellState.owned, grouped_eq_none free, current]
  rw [owned]
  exact List.sublist_append_right _ _

theorem goto (consistent : Consistent state) {control : Control} (free : control.held = none)
    (reaping : control = .reaping → state.currentJob = []) : Consistent (state.goto control) :=
  consistent.release rfl rfl rfl rfl rfl free reaping

theorem setStatus (consistent : Consistent state) (pid : Nat) (status : ChildStatus) :
    Consistent { state with children := Shell.setStatus pid status state.children } where
  ledger := consistent.ledger.setStatus pid status
  counted job listed := by
    rw [members_eq, membersOf_setStatus]
    exact consistent.counted job listed
  populated job listed elsewhere := by
    rw [members_eq, membersOf_setStatus]
    exact consistent.populated job listed elsewhere
  visits := consistent.visits
  held := consistent.held.transfer rfl rfl (List.Subset.refl _) fun job _ =>
    ⟨rfl, membersOf_setStatus job pid status state.children⟩

theorem childStep (consistent : Consistent state) {event : ChildEvent}
    (taken : Shell.childStep state event = some next) : Consistent next := by
  unfold Shell.childStep at taken
  split at taken
  all_goals
    split at taken
    next =>
      cases taken
      exact consistent.setStatus _ _
    next => simp at taken

theorem member_of_group (consistent : Consistent state) {job : JobId} {child : Child}
    (owned : job ∈ state.owned) (present : child ∈ state.children)
    (matched : inGroup (state.jobs job).pgid child = true) : child.job = job :=
  (consistent.ledger.groups job owned child present).mp (by simpa [inGroup] using matched)

end Consistent

end Akiso.Shell
