import Akiso.Shared.Transition
import Akiso.Shell.Jobs

set_option autoImplicit false

namespace Akiso.Shell

inductive ChildStatus where
  | running
  | stopped (reported : Bool)
  | zombie
  deriving DecidableEq, Repr

/-- The kernel's view of a child that has not been reaped, and the job it was forked for. -/
structure Child where
  pid : Nat
  pgid : Nat
  job : JobId
  status : ChildStatus
  deriving DecidableEq, Repr

inductive Report where
  | ended
  | stopped
  deriving DecidableEq, Repr

structure WaitState where
  fallingApart : Bool
  stopped : Bool
  stoppedProcessCount : Nat
  deriving DecidableEq, Repr

inductive Control where
  | command
  | starting (job : JobId) (first : Bool) (remaining : Nat)
  | waiting (job : JobId) (wait : WaitState)
  | terminal
  | fetched (job : JobId)
  | moved (job : JobId)
  | relisted (job : JobId)
  | printing (ending : Bool)
  | showing (ending : Bool) (job : JobId)
  | removing (ending : Bool)
  | leaving (jumped : Bool)
  | draining
  | reaping
  | finished
  | crashed
  deriving DecidableEq, Repr

/-- The handles handle_chld has yet to visit; with none left it sweeps by waitpid(-1). -/
inductive Handler where
  | idle
  | visiting (handles : List JobId)
  deriving DecidableEq, Repr

structure ShellState where
  jobs : JobId → Job
  nextJob : JobId
  currentJob : List JobId
  pendingJobs : List JobId
  pendingRemovedJobs : List JobId
  accesses : List Access
  children : List Child
  control : Control
  handler : Handler

inductive ChildEvent where
  | exited (pid : Nat)
  | stopped (pid : Nat)
  | continued (pid : Nat)
  deriving DecidableEq, Repr

/-- polled and swept carry what waitpid returns: a process, or none for 0 and -1. -/
inductive HandlerEvent where
  | delivered
  | polled (pid : Option Nat)
  | swept (pid : Option Nat)
  deriving DecidableEq, Repr

inductive MainEvent where
  | startJob (job : Job)
  | forked (pid : Nat)
  | started
  | startFailed
  | waited (pid : Option Nat)
  | regained
  | lost
  | fg (arguments : List (Option (List UInt8))) (argc : Nat)
  | refused
  | handedOver
  | bg (arguments : List (Option (List UInt8))) (argc : Nat)
  | resumed
  | announced
  | jobs
  | skipped
  | unqueued
  | printed
  | removed
  | left
  | cleaned
  | drained
  | reaped (pid : Option Nat)
  deriving DecidableEq, Repr

inductive ShellEvent where
  | child (event : ChildEvent)
  | handler (event : HandlerEvent)
  | main (event : MainEvent)
  deriving DecidableEq, Repr

-- 0 stands for the group the shell itself is in, which is never a job's.
def shellGroup : Nat := 0

def inGroup (pgid : Nat) (child : Child) : Bool :=
  child.pgid = pgid

def anyChild (_ : Child) : Bool := true

def waitable (untraced : Bool) (child : Child) : Bool :=
  child.status = .zombie || (untraced && child.status = .stopped false)

def reapChild (pid : Nat) (children : List Child) : List Child :=
  children.filter fun child => child.pid ≠ pid

def setStatus (pid : Nat) (status : ChildStatus) (children : List Child) : List Child :=
  children.map fun child => if child.pid = pid then { child with status } else child

def waitpid (matching : Child → Bool) (untraced : Bool) (pid : Nat) (children : List Child) :
    Option (Report × List Child) :=
  match children.find? fun child => child.pid = pid && matching child with
  | none => none
  | some child =>
    if child.status = .zombie then some (.ended, reapChild pid children)
    else if untraced && child.status = .stopped false then
      some (.stopped, setStatus pid (.stopped true) children)
    else none

def noneWaitable (matching : Child → Bool) (untraced : Bool) (children : List Child) : Bool :=
  children.all fun child => !(matching child && waitable untraced child)

def freshPid (pid : Nat) (children : List Child) : Prop :=
  1 < pid ∧ ∀ child ∈ children, child.pid ≠ pid ∧ child.pgid ≠ pid

instance (pid : Nat) (children : List Child) : Decidable (freshPid pid children) :=
  inferInstanceAs (Decidable (1 < pid ∧ ∀ child ∈ children, child.pid ≠ pid ∧ child.pgid ≠ pid))

-- setpgid(pid, leader) moves a child only into a group that still exists.
def joinGroup (leader pid : Nat) (children : List Child) : Nat :=
  if leader = pid ∨ ∃ child ∈ children, child.pgid = leader then leader else shellGroup

def Startable (job : Job) : Prop :=
  job.pgid = 0 ∧ job.pipeline ≠ [] ∧ job.pipelineSize = job.pipeline.length ∧
    job.pipelineSize < buffSize

instance (job : Job) : Decidable (Startable job) :=
  inferInstanceAs (Decidable (job.pgid = 0 ∧ job.pipeline ≠ [] ∧
    job.pipelineSize = job.pipeline.length ∧ job.pipelineSize < buffSize))

def Control.held : Control → Option JobId
  | .starting job _ _ => some job
  | .waiting job _ => some job
  | .fetched job => some job
  | .moved job => some job
  | _ => none

def Control.unmasked : Control → Bool
  | .waiting _ _ => false
  | .printing ending => !ending
  | .showing ending _ => !ending
  | .removing ending => !ending
  | .draining => false
  | .reaping => false
  | .finished => false
  | .crashed => false
  | _ => true

namespace ShellState

def use (state : ShellState) (jobs : List JobId) : ShellState :=
  { state with accesses := jobs.map .used ++ state.accesses }

def setJob (state : ShellState) (id : JobId) (job : Job) : ShellState :=
  { state with jobs := Function.update state.jobs id job }

def goto (state : ShellState) (control : Control) : ShellState :=
  { state with control }

def crash (state : ShellState) : ShellState :=
  { state with control := .crashed, handler := .idle }

def members (state : ShellState) (job : JobId) : Nat :=
  state.children.countP fun child => child.job = job

end ShellState

def childStep (state : ShellState) : ChildEvent → Option ShellState
  | .exited pid =>
    if ∃ child ∈ state.children, child.pid = pid ∧ child.status ≠ .zombie then
      some { state with children := setStatus pid .zombie state.children }
    else none
  | .stopped pid =>
    if ∃ child ∈ state.children, child.pid = pid ∧ child.status = .running then
      some { state with children := setStatus pid (.stopped false) state.children }
    else none
  | .continued pid =>
    if ∃ child ∈ state.children, child.pid = pid ∧ child.status ≠ .zombie then
      some { state with children := setStatus pid .running state.children }
    else none

def Job.absorb (job : Job) : Report → Job
  | .ended => { job with pipelineSize := sizeDecrement job.pipelineSize, fallingApart := true }
  | .stopped => { job with stopped := true }

def leaveHandle (state : ShellState) (job : JobId) (rest : List JobId) : ShellState :=
  let pgid := (state.jobs job).pgid
  let moved :=
    if sizeIsZero (state.jobs job).pipelineSize then
      let removal := removeJobHandle state.jobs pgid state.currentJob
      { state.use (examined state.jobs pgid state.currentJob) with
        currentJob := removal.2
        pendingRemovedJobs := state.pendingRemovedJobs ++ removal.1.toList }
    else state
  { moved.use [job] with handler := .visiting rest }

def sweepChild (state : ShellState) (pid : Nat) : ShellState :=
  let removal := removeJobHandle state.jobs pid state.currentJob
  let searched := state.use (examined state.jobs pid state.currentJob)
  match addFirst removal.1 state.pendingRemovedJobs with
  | some removed => { searched with currentJob := removal.2, pendingRemovedJobs := removed }
  | none => searched.crash

def handlerStep (state : ShellState) : HandlerEvent → Option ShellState
  | .delivered =>
    if state.handler = .idle ∧ state.control.unmasked then
      some { state with handler := .visiting state.currentJob }
    else none
  | .polled (some pid) =>
    match state.handler with
    | .visiting (job :: _) =>
      (waitpid (inGroup (state.jobs job).pgid) true pid state.children).map fun outcome =>
        { (state.use [job]).setJob job ((state.jobs job).absorb outcome.1) with
          children := outcome.2 }
    | _ => none
  | .polled none =>
    match state.handler with
    | .visiting (job :: rest) =>
      if noneWaitable (inGroup (state.jobs job).pgid) true state.children then
        some (leaveHandle state job rest)
      else none
    | _ => none
  | .swept (some pid) =>
    match state.handler with
    | .visiting [] =>
      (waitpid anyChild false pid state.children).map fun outcome =>
        sweepChild { state with children := outcome.2 } pid
    | _ => none
  | .swept none =>
    match state.handler with
    | .visiting [] =>
      if noneWaitable anyChild false state.children then some { state with handler := .idle }
      else none
    | _ => none

def WaitState.start : WaitState :=
  { fallingApart := false, stopped := false, stoppedProcessCount := 0 }

def WaitState.absorb (wait : WaitState) : Report → WaitState
  | .ended =>
    { wait with
      fallingApart := true
      stoppedProcessCount := if wait.stopped then 0 else wait.stoppedProcessCount }
  | .stopped =>
    { wait with
      stopped := true
      stoppedProcessCount := if wait.fallingApart then 0 else wait.stoppedProcessCount + 1 }

def listJob (state : ShellState) (job : JobId) : ShellState :=
  { state with
    currentJob := job :: state.currentJob
    pendingJobs := state.pendingJobs ++ [job] }

def waitForFgJob (state : ShellState) (job : JobId) (wait : WaitState) (report : Report) :
    ShellState :=
  let next := wait.absorb report
  if next.stoppedProcessCount = (state.jobs job).pipelineSize then
    ((listJob state job).setJob job { state.jobs job with fg := false, stopped := true }).goto
      .terminal
  else state.goto (.waiting job next)

def forkMember (state : ShellState) (job : JobId) (first : Bool) (remaining pid : Nat) :
    ShellState :=
  let leader := if first then pid else (state.jobs job).pgid
  let child := { pid, pgid := joinGroup leader pid state.children, job, status := .running }
  { state.setJob job { state.jobs job with pgid := leader } with
    children := state.children ++ [child]
    control := .starting job false remaining }

def launchJob (state : ShellState) (job : JobId) : ShellState :=
  if (state.jobs job).fg then state.goto (.waiting job .start)
  else (listJob state job).goto .terminal

-- The accesses are all that get_job_handle can make, whichever handle it finds.
def takeHandle (state : ShellState) (arguments : List (Option (List UInt8))) (argc : Nat)
    (holding : JobId → Control) : ShellState :=
  match getJobHandle state.jobs state.currentJob arguments argc with
  | .handle job rest =>
    { state.use (state.currentJob) with currentJob := rest, control := holding job }
  | .badArguments => state.goto (.printing false)
  | .noSuchJob => state.goto (.printing false)
  | .notRemoved => state.crash
  | .nullDereference => state.crash

def startStep (state : ShellState) (job : JobId) (first : Bool) :
    Nat → MainEvent → Option ShellState
  | remaining + 1, .forked pid =>
    if freshPid pid state.children then some (forkMember state job first remaining pid) else none
  | 0, .started => some (launchJob state job)
  | _, .startFailed => some (state.goto .terminal)
  | _, _ => none

def waitStep (state : ShellState) (job : JobId) (wait : WaitState) :
    MainEvent → Option ShellState
  | .waited (some pid) =>
    (waitpid (inGroup (state.jobs job).pgid) true pid state.children).map fun outcome =>
      waitForFgJob { state with children := outcome.2 } job wait outcome.1
  | .waited none =>
    if state.children.all fun child => !inGroup (state.jobs job).pgid child then
      some (state.goto .terminal)
    else none
  | _ => none

def terminalStep (state : ShellState) : MainEvent → Option ShellState
  | .regained => some (state.goto (.printing false))
  | .lost => some (state.goto (.leaving true))
  | _ => none

def fgStep (state : ShellState) (job : JobId) : MainEvent → Option ShellState
  | .refused =>
    some { state.use [job] with
           currentJob := state.currentJob ++ [job]
           control := .printing false }
  | .handedOver =>
    some { (state.use [job]).setJob job { state.jobs job with stopped := false, fg := true } with
           control := .waiting job .start }
  | _ => none

def bgStep (state : ShellState) (job : JobId) : MainEvent → Option ShellState
  | .resumed =>
    some { (state.use [job]).setJob job { state.jobs job with stopped := false } with
           currentJob := state.currentJob ++ [job]
           control := .relisted job }
  | _ => none

def announceStep (state : ShellState) (job : JobId) : MainEvent → Option ShellState
  | .announced =>
    some { state with pendingJobs := state.pendingJobs ++ [job], control := .printing false }
  | _ => none

def commandStep (state : ShellState) : MainEvent → Option ShellState
  | .startJob job =>
    if Startable job then
      some { state.setJob state.nextJob job with
             nextJob := state.nextJob + 1
             control := .starting state.nextJob true job.pipeline.length }
    else none
  | .fg arguments argc => some (takeHandle state arguments argc .fetched)
  | .bg arguments argc => some (takeHandle state arguments argc .moved)
  | .jobs => some ((state.use state.currentJob).goto (.printing false))
  | .skipped => some (state.goto (.printing false))
  | .left => some (state.goto (.leaving false))
  | _ => none

-- The first loop of print_pending_jobs; the handler may run between the two calls of its body.
def printStep (state : ShellState) (ending : Bool) : MainEvent → Option ShellState
  | .unqueued =>
    match state.pendingJobs with
    | job :: rest => some { state with pendingJobs := rest, control := .showing ending job }
    | [] => some (state.goto (.removing ending))
  | _ => none

def showStep (state : ShellState) (ending : Bool) (job : JobId) : MainEvent → Option ShellState
  | .printed => some { state.use [job] with control := .printing ending }
  | _ => none

-- The second loop is one step: no list names the job any more, so no handler gets to it.
def removeStep (state : ShellState) (ending : Bool) : MainEvent → Option ShellState
  | .removed =>
    match state.pendingRemovedJobs with
    | job :: rest =>
      some { state with
             pendingRemovedJobs := rest
             accesses := .destroyed job :: .used job :: state.accesses }
    | [] => some (state.goto (if ending then .finished else .command))
  | _ => none

def drainStep (state : ShellState) : MainEvent → Option ShellState
  | .drained =>
    match state.currentJob with
    | job :: rest =>
      some { state with
             currentJob := rest
             accesses := .destroyed job :: .used job :: state.accesses }
    | [] => some (state.goto .reaping)
  | _ => none

def reapStep (state : ShellState) : MainEvent → Option ShellState
  | .reaped (some pid) =>
    (waitpid anyChild false pid state.children).map fun outcome =>
      { state with children := outcome.2 }
  | .reaped none => if state.children = [] then some (state.goto (.printing true)) else none
  | _ => none

def controlStep (state : ShellState) (event : MainEvent) : Option ShellState :=
  match state.control with
  | .command => commandStep state event
  | .starting job first remaining => startStep state job first remaining event
  | .waiting job wait => waitStep state job wait event
  | .terminal => terminalStep state event
  | .fetched job => fgStep state job event
  | .moved job => bgStep state job event
  | .relisted job => announceStep state job event
  | .printing ending => printStep state ending event
  | .showing ending job => showStep state ending job event
  | .removing ending => removeStep state ending event
  | .leaving _ => if event = .cleaned then some (state.goto .draining) else none
  | .draining => drainStep state event
  | .reaping => reapStep state event
  | .finished => none
  | .crashed => none

def mainStep (state : ShellState) (event : MainEvent) : Option ShellState :=
  if state.handler = .idle then controlStep state event else none

def shellStep (state : ShellState) : ShellEvent → Option ShellState
  | .child event => childStep state event
  | .handler event => handlerStep state event
  | .main event => mainStep state event

def initialShell : ShellState :=
  { jobs := fun _ => emptyJob, nextJob := 0, currentJob := [], pendingJobs := []
    pendingRemovedJobs := [], accesses := [], children := [], control := .printing false
    handler := .idle }

def backgroundJob (stages : Nat) : Job :=
  { emptyJob with pipeline := List.replicate stages emptyProcess, pipelineSize := stages }

end Akiso.Shell
