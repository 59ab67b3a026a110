import Akiso.Shared.LinkedList
import Akiso.Shell.JobControl

set_option autoImplicit false

namespace Akiso.Shell

open LinkedList

inductive JobList where
  | currentJob
  | pendingJobs
  | pendingRemovedJobs
  deriving DecidableEq, Repr

/-- The handles and the jobs as memory cells; a handle points to its job. none is an access to a
cell that is not allocated, NULL among them. -/
structure JobMemory where
  handles : Memory JobList Nat
  jobs : Nat → Option Job

structure HandleAddresses where
  current : Nat
  pending : Nat
  deriving DecidableEq, Repr

namespace JobMemory

def setJob (memory : JobMemory) (address : Nat) (job : Job) : JobMemory :=
  { memory with jobs := Function.update memory.jobs address (some job) }

def removeJobHandle (memory : JobMemory) (list : JobList) (pid : Nat) :
    Option (Nat × JobMemory) := do
  let (handle, handles) ← memory.handles.remove
    (fun job => (memory.jobs job).map fun job => job.pgid = pid || pid = 0) list
  return (handle, { memory with handles })

def makeJobHandle (memory : JobMemory) (address job : Nat) : Option JobMemory :=
  (memory.handles.allocate address job).map fun handles => { memory with handles }

def addFirst (memory : JobMemory) (list : JobList) (handle : Nat) : Option JobMemory :=
  (memory.handles.addFirst list handle).map fun handles => { memory with handles }

def addLast (memory : JobMemory) (list : JobList) (handle : Nat) : Option JobMemory :=
  (memory.handles.addLast list handle).map fun handles => { memory with handles }

def freeHandle (memory : JobMemory) (handle : Nat) : Option JobMemory :=
  (memory.handles.free handle).map fun handles => { memory with handles }

def destroyJob (memory : JobMemory) (job : Nat) : Option JobMemory :=
  (memory.jobs job).map fun _ => { memory with jobs := Function.update memory.jobs job none }

def listJob (memory : JobMemory) (job : Nat) (answers : HandleAddresses) : Option JobMemory := do
  let memory ← memory.makeJobHandle answers.current job
  let memory ← memory.addFirst .currentJob answers.current
  let memory ← memory.makeJobHandle answers.pending job
  memory.addLast .pendingJobs answers.pending

-- The reports are what waitpid returns until it returns 0 or -1.
def waitForFgJob (memory : JobMemory) (job : Nat) (answers : HandleAddresses) :
    WaitState → List Report → Option JobMemory
  | _, [] => (memory.jobs job).map fun _ => memory
  | wait, report :: rest => do
    let cell ← memory.jobs job
    let wait := wait.absorb report
    if wait.stoppedProcessCount = cell.pipelineSize then
      (memory.setJob job { cell with fg := false, stopped := true }).listJob job answers
    else memory.waitForFgJob job answers wait rest

def launchJob (memory : JobMemory) (job : Nat) (reports : List Report)
    (answers : HandleAddresses) : Option JobMemory := do
  let cell ← memory.jobs job
  if cell.fg then memory.waitForFgJob job answers .start reports
  else memory.listJob job answers

def seekHandle (memory : JobMemory) (index : Int) : Nat → Nat → Int → Option (Int × Nat)
  | 0, _, _ => none
  | fuel + 1, handle, count =>
    if handle = 0 then some (count, 0)
    else do
      let node ← memory.handles.nodes handle
      if count + 1 = index then some (count + 1, handle)
      else memory.seekHandle index fuel node.next (count + 1)

inductive Fetched where
  | handle (address : Nat) (memory : JobMemory)
  | badArguments
  | noSuchJob
  | notRemoved

def getJobHandle (memory : JobMemory) (arguments : List (Option (List UInt8))) (argc : Nat) :
    Option Fetched :=
  match handleIndex arguments argc with
  | none => some .badArguments
  | some index => do
    let (count, handle) ← memory.seekHandle index (memory.handles.limit + 1)
      (memory.handles.heads .currentJob) 0
    if count ≠ index then some .noSuchJob
    else
      let node ← memory.handles.nodes handle
      let cell ← memory.jobs node.value
      let (removed, memory) ← memory.removeJobHandle .currentJob cell.pgid
      if removed = 0 then some .notRemoved else some (.handle removed memory)

-- get_terminal fails, or launch_job waits for the job. -999 is not NULL, so it is dereferenced.
def doFg (memory : JobMemory) (arguments : List (Option (List UInt8))) (argc : Nat)
    (terminal : Bool) (reports : List Report) (answers : HandleAddresses) : Option JobMemory := do
  match ← memory.getJobHandle arguments argc with
  | .badArguments => some memory
  | .noSuchJob => some memory
  | .notRemoved => none
  | .handle handle memory =>
    let node ← memory.handles.nodes handle
    let cell ← memory.jobs node.value
    if !terminal then memory.addLast .currentJob handle
    else
      let memory := memory.setJob node.value { cell with stopped := false, fg := true }
      let memory ← memory.launchJob node.value reports answers
      memory.freeHandle handle

def doBg (memory : JobMemory) (arguments : List (Option (List UInt8))) (argc answer : Nat) :
    Option JobMemory := do
  match ← memory.getJobHandle arguments argc with
  | .badArguments => some memory
  | .noSuchJob => some memory
  | .notRemoved => none
  | .handle handle memory =>
    let node ← memory.handles.nodes handle
    let cell ← memory.jobs node.value
    let memory := memory.setJob node.value { cell with stopped := false }
    let memory ← memory.addLast .currentJob handle
    let memory ← memory.makeJobHandle answer node.value
    memory.addLast .pendingJobs answer

def printPending (memory : JobMemory) : Nat → Option JobMemory
  | 0 => none
  | fuel + 1 => do
    let (handle, memory) ← memory.removeJobHandle .pendingJobs 0
    if handle = 0 then some memory
    else
      let node ← memory.handles.nodes handle
      let _ ← memory.jobs node.value
      memory.printPending fuel

def printRemoved (memory : JobMemory) : Nat → Option JobMemory
  | 0 => none
  | fuel + 1 => do
    let (handle, memory) ← memory.removeJobHandle .pendingRemovedJobs 0
    if handle = 0 then some memory
    else
      let node ← memory.handles.nodes handle
      let _ ← memory.jobs node.value
      let memory ← memory.destroyJob node.value
      let memory ← memory.freeHandle handle
      memory.printRemoved fuel

def printPendingJobs (memory : JobMemory) : Option JobMemory := do
  let memory ← memory.printPending (memory.handles.limit + 1)
  memory.printRemoved (memory.handles.limit + 1)

def visitHandles (memory : JobMemory) : Nat → Nat → List (List Report) → Option JobMemory
  | 0, _, _ => none
  | fuel + 1, handle, reports =>
    if handle = 0 then some memory
    else do
      let node ← memory.handles.nodes handle
      let cell ← memory.jobs node.value
      let cell := (reports.headD []).foldl Job.absorb cell
      let memory := memory.setJob node.value cell
      if sizeIsZero cell.pipelineSize then
        let (removed, memory) ← memory.removeJobHandle .currentJob cell.pgid
        if removed = 0 then memory.visitHandles fuel node.next reports.tail
        else
          let memory ← memory.addLast .pendingRemovedJobs removed
          memory.visitHandles fuel node.next reports.tail
      else memory.visitHandles fuel node.next reports.tail

-- The sweep by waitpid(-1) finds nothing.
def handleChld (memory : JobMemory) (reports : List (List Report)) : Option JobMemory :=
  memory.visitHandles (memory.handles.limit + 1) (memory.handles.heads .currentJob) reports

def initial : JobMemory :=
  { handles := .empty, jobs := fun _ => none }

end JobMemory

inductive JobOperation where
  | launchJob (address : Nat) (job : Job) (reports : List Report) (answers : HandleAddresses)
  | doFg (arguments : List (Option (List UInt8))) (argc : Nat) (terminal : Bool)
    (reports : List Report) (answers : HandleAddresses)
  | doBg (arguments : List (Option (List UInt8))) (argc answer : Nat)
  | printPendingJobs
  | handleChld (reports : List (List Report))

-- A job that is launched has been allocated at a free address, and start_job_internal has run.
def JobMemory.operate (memory : JobMemory) : JobOperation → Option JobMemory
  | .launchJob address job reports answers =>
    if address = 0 ∨ (memory.jobs address).isSome then none
    else (memory.setJob address job).launchJob address reports answers
  | .doFg arguments argc terminal reports answers =>
    memory.doFg arguments argc terminal reports answers
  | .doBg arguments argc answer => memory.doBg arguments argc answer
  | .printPendingJobs => memory.printPendingJobs
  | .handleChld reports => memory.handleChld reports

end Akiso.Shell
