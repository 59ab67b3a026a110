import Akiso.Shared.Descriptors

set_option autoImplicit false

namespace Akiso.Shell

open Descriptors

/-- The pipes start_job_internal creates; stages count from 0. -/
inductive Pipe where
  | control
  | stage (index : Nat)
  | error (index : Nat)
  deriving DecidableEq, Repr

inductive OpenFile where
  | inherited (description : Nat)
  | readEnd (pipe : Pipe)
  | writeEnd (pipe : Pipe)
  deriving DecidableEq, Repr

structure PipeFds where
  read : Int
  write : Int
  deriving DecidableEq, Repr

def noFds : PipeFds := { read := -1, write := -1 }

-- One of the two halves of close_pipe: the variable is reset only if close succeeds.
def closeEnd (table : Table OpenFile) (fd : Int) : Bool × Table OpenFile × Int :=
  if 0 < fd then
    match close table fd with
    | some closed => (true, closed, -1)
    | none => (false, table, fd)
  else (true, table, fd)

structure Closing where
  succeeded : Bool
  table : Table OpenFile
  fds : PipeFds

def closePipe (table : Table OpenFile) (fds : PipeFds) (which : Nat) : Closing :=
  let (readClosed, table, read) :=
    if which.testBit 0 then closeEnd table fds.read else (true, table, fds.read)
  let (writeClosed, table, write) :=
    if which.testBit 1 then closeEnd table fds.write else (true, table, fds.write)
  { succeeded := readClosed && writeClosed, table, fds := { read, write } }

/-- What the kernel answers to one create_pipe: of its four fcntl calls, how many succeed. -/
inductive PipeCall where
  | refused
  | opened (read write fcntls : Nat)
  deriving DecidableEq, Repr

structure Creation where
  succeeded : Bool
  table : Table OpenFile
  fds : PipeFds

def createPipe (table : Table OpenFile) (fds : PipeFds) (pipe : Pipe) : PipeCall → Option Creation
  | .refused => some { succeeded := false, table, fds }
  | .opened read write fcntls =>
    match openPair table (.readEnd pipe) (.writeEnd pipe) read write with
    | none => none
    | some table =>
      let table := if 3 ≤ fcntls then setCloexec table read else table
      let fds := { read, write }
      if fcntls < 4 then
        let closing := closePipe table fds 3
        some { succeeded := false, table := closing.table, fds := closing.fds }
      else some { succeeded := true, table := setCloexec table write, fds }

def linkPipes (table : Table OpenFile) (inFd outFd : Int) : Option (Table OpenFile) :=
  let linked := if inFd ≠ -2 then dup2 table inFd 0 else some table
  -- both calls are made before their results are looked at
  let onward := linked.getD table
  let outLinked := if outFd ≠ -2 then dup2 onward outFd 1 else some onward
  if linked.isNone || outLinked.isNone then none else outLinked

/-- The locals of start_job_internal; `children` holds each stage's table at execvp. -/
structure Starter where
  table : Table OpenFile
  controlPipe : PipeFds
  pipefds : PipeFds
  errorPipe : PipeFds
  prevfd : Int
  firstErrorPipeRead : Int
  first : Bool
  children : List (Option (Table OpenFile))

-- Only the first child waits on the control pipe; close_pipe reports to it, close does not.
def closeControl (table : Table OpenFile) (controlPipe : PipeFds) (first : Bool) :
    Option (Table OpenFile) :=
  if first then
    let closing := closePipe table controlPipe 2
    if closing.succeeded then some ((close closing.table closing.fds.read).getD closing.table)
    else none
  else some ((close table controlPipe.read).getD table)

-- The child of a stage without redirects, up to execvp; none if it reports an error before.
def childTable (starter : Starter) (last : Bool) : Option (Table OpenFile) := do
  let table ← linkPipes starter.table starter.prevfd (if last then 1 else starter.pipefds.write)
  let table := (closePipe table { read := starter.prevfd, write := -1 } 1).table
  let table := if last then table else (closePipe table starter.pipefds 2).table
  closeControl table starter.controlPipe starter.first

structure StageCalls where
  stagePipe : PipeCall
  errorPipe : PipeCall
  forked : Bool
  reported : Bool
  deriving DecidableEq, Repr

inductive Progress where
  | going (starter : Starter)
  | failed (starter : Starter)

def parentStage (starter : Starter) (last : Bool) (reported : Bool) : Progress :=
  let closing := closePipe starter.table { read := starter.prevfd, write := -1 } 1
  let starter := { starter with table := closing.table, prevfd := closing.fds.read }
  let starter :=
    if last then starter
    else
      let closing := closePipe starter.table starter.pipefds 2
      { starter with
        table := closing.table
        pipefds := closing.fds
        prevfd := closing.fds.read }
  let closing := closePipe starter.table starter.errorPipe 2
  let starter := { starter with table := closing.table, errorPipe := closing.fds }
  if !closing.succeeded then .failed starter
  else if !starter.first then
    if reported then .failed starter
    else
      let closing := closePipe starter.table starter.errorPipe 1
      .going { starter with table := closing.table, errorPipe := closing.fds, first := false }
  else .going { starter with firstErrorPipeRead := starter.errorPipe.read, first := false }

def createStagePipe (starter : Starter) (index : Nat) (last : Bool) (call : PipeCall) :
    Option Creation :=
  if last then some { succeeded := true, table := starter.table, fds := starter.pipefds }
  else createPipe starter.table starter.pipefds (.stage index) call

def startStage (starter : Starter) (index : Nat) (last : Bool) (calls : StageCalls) :
    Option Progress := do
  let creation ← createStagePipe starter index last calls.stagePipe
  let starter := { starter with table := creation.table, pipefds := creation.fds }
  if !creation.succeeded then some (.failed starter)
  else
    let creation ← createPipe starter.table starter.errorPipe (.error index) calls.errorPipe
    let starter := { starter with table := creation.table, errorPipe := creation.fds }
    if !creation.succeeded || !calls.forked then some (.failed starter)
    else
      let children := starter.children ++ [childTable starter last]
      some (parentStage { starter with children } last calls.reported)

def startStages : Starter → Nat → List StageCalls → Option Progress
  | starter, _, [] => some (.going starter)
  | starter, index, calls :: rest => do
    match ← startStage starter index (rest = []) calls with
    | .going starter => startStages starter (index + 1) rest
    | .failed starter => some (.failed starter)

def finishStart (starter : Starter) (reported : Bool) : Progress :=
  let table := (closePipe starter.table starter.controlPipe 3).table
  let controlPipe := (closePipe starter.table starter.controlPipe 3).fds
  let closing := closePipe table starter.pipefds 3
  let starter := { starter with table := closing.table, controlPipe, pipefds := closing.fds }
  if reported then .failed starter
  else
    let closing := closePipe starter.table { read := starter.firstErrorPipeRead, write := -1 } 1
    let starter := { starter with table := closing.table, firstErrorPipeRead := closing.fds.read }
    let closing := closePipe starter.table starter.errorPipe 3
    .going { starter with table := closing.table, errorPipe := closing.fds }

def abandonStart (starter : Starter) : Starter :=
  let control := closePipe starter.table starter.controlPipe 3
  let stage := closePipe control.table starter.pipefds 3
  let error := closePipe stage.table starter.errorPipe 3
  { starter with
    table := error.table
    controlPipe := control.fds
    pipefds := stage.fds
    errorPipe := error.fds }

def beginStart (creation : Creation) : Starter :=
  { table := creation.table, controlPipe := creation.fds, pipefds := noFds, errorPipe := noFds
    prevfd := -2, firstErrorPipeRead := -1, first := true, children := [] }

def startPipeline (table : Table OpenFile) (controlCall : PipeCall) (stages : List StageCalls) :
    Option Progress := do
  let creation ← createPipe table noFds .control controlCall
  if creation.succeeded then startStages (beginStart creation) 0 stages
  else some (.failed (beginStart creation))

def startJobInternal (table : Table OpenFile) (controlCall : PipeCall) (stages : List StageCalls)
    (reported : Bool) : Option (Int × Table OpenFile) := do
  let creation ← createPipe table noFds .control controlCall
  if creation.succeeded then
    match ← startStages (beginStart creation) 0 stages with
    | .failed starter => some (-1, (abandonStart starter).table)
    | .going starter =>
      match finishStart starter reported with
      | .failed starter => some (-1, (abandonStart starter).table)
      | .going starter => some (0, starter.table)
  else some (-1, creation.table)

end Akiso.Shell
