import Akiso.Shared.Strtol
import Akiso.Shell.Tokens

set_option autoImplicit false

namespace Akiso.Shell

open CString Strtol

structure Redirect where
  isOut : Bool
  left : List UInt8
  leftFd : Int
  right : List UInt8
  rightFd : Int
  deriving DecidableEq, Repr

structure Process where
  pid : Nat
  pgid : Nat
  arguments : List (Option (List UInt8))
  argc : Nat
  redirects : List Redirect
  deriving DecidableEq, Repr

structure Job where
  pgid : Nat
  fg : Bool
  stopped : Bool
  fallingApart : Bool
  pipeline : List Process
  pipelineSize : Nat
  deriving DecidableEq, Repr

def emptyProcess : Process :=
  { pid := 0, pgid := 0, arguments := [], argc := 0, redirects := [] }

def emptyJob : Job :=
  { pgid := 0, fg := false, stopped := false, fallingApart := false, pipeline := [],
    pipelineSize := 0 }

def Process.words (process : Process) : List (Option (List UInt8)) :=
  process.arguments.take process.argc

def checkRedirect (redirect : Redirect) : Option Redirect := do
  let redirect ←
    if redirect.left = [] then some { redirect with leftFd := if redirect.isOut then 1 else 0 }
    else
      let (value, rest) := strtol redirect.left
      if rest = [] then some { redirect with leftFd := toInt value } else none
  match redirect.right with
  | [] => none
  | first :: number =>
    if first = ampersand then
      if number = [] then none
      else
        let (value, rest) := strtol number
        if rest = [] then some { redirect with rightFd := toInt value } else none
    else some { redirect with rightFd := -1 }

-- Every caller looks at the count alone, and a rejected text has the count 0.
def counted : Except Stop (List (List UInt8)) → Except Stop (List (List UInt8))
  | .error .rejected => .ok []
  | .error .overrun => .error .overrun
  | .ok tokens => .ok tokens

inductive ParsedProcess where
  | process (process : Process)
  | empty
  | error
  deriving DecidableEq, Repr

structure ArgumentScan where
  process : Process
  redirectFound : Bool
  deriving DecidableEq, Repr

def ArgumentScan.addRedirect (scan : ArgumentScan) (index : Nat) (redirect : Redirect) :
    ArgumentScan :=
  { process :=
      { scan.process with
        arguments := scan.process.arguments.set index none
        redirects := scan.process.redirects ++ [redirect]
        argc := if scan.redirectFound then scan.process.argc else index }
    redirectFound := true }

inductive ParseResult where
  | ok
  | exit
  | syntaxError
  | errorErrno
  | otherError
  deriving DecidableEq, Repr

inductive Builtin where
  | cd
  | jobs
  | fg
  | bg
  | exit
  deriving DecidableEq, Repr

def builtins : List Builtin := [.cd, .jobs, .fg, .bg, .exit]

def Builtin.name : Builtin → List UInt8
  | .cd => [99, 100]
  | .jobs => [106, 111, 98, 115]
  | .fg => [102, 103]
  | .bg => [98, 103]
  | .exit => [101, 120, 105, 116]

def buffSize : Nat := 512

/-- A NUL-terminated line, as start reads it into a buffer of the same size. -/
structure Line where
  bytes : List UInt8
  clean : 0 ∉ bytes
  fits : bytes.length < buffSize

inductive Handoff where
  | startJob
  | builtin (command : Builtin)
  deriving DecidableEq, Repr

structure LineOutcome where
  job : Option Job
  handoff : Option Handoff
  result : ParseResult
  deriving DecidableEq, Repr

def trimLine (line : Line) : List UInt8 :=
  trimEnd (strncpy (trimFront line.bytes whitespace) buffSize) whitespace

-- On a blank line buff[len - 1] is the byte `below` the buffer, and so is the store.
def takeBackground (below : UInt8) (buff : List UInt8) : List UInt8 × Bool :=
  let len := strlen buff
  let last := if len = 0 then below else buff.getD (len - 1) 0
  if last = ampersand then (if len = 0 then buff else buff.set (len - 1) 0, true)
  else (buff, false)

inductive ParsedStages where
  | pipeline (processes : List Process)
  | failed (result : ParseResult)
  deriving DecidableEq, Repr

-- `run` is what the builtin returns in the state the shell is in.
def dispatch (run : Builtin → List (Option (List UInt8)) → Nat → ParseResult) (job : Job) :
    LineOutcome :=
  match job.pipeline with
  | [] => { job := some job, handoff := some .startJob, result := .ok }
  | first :: rest =>
    match builtins.find? fun command => first.arguments.head? = some (some command.name) with
    | some command =>
      if rest ≠ [] then { job := some job, handoff := none, result := .syntaxError }
      else
        { job := some job, handoff := some (.builtin command)
          result := run command first.arguments first.argc }
    | none => { job := some job, handoff := some .startJob, result := .ok }

abbrev Tokenizer := List UInt8 → List UInt8 → Bool → Except Stop (List (List UInt8))

section

variable (tokenizer : Tokenizer)

def parseRedirectWith (str : List UInt8) (isOut : Bool) : Except Stop (Option Redirect) := do
  match ← counted (tokenizer str [if isOut then greater else less] true) with
  | [left, right] => .ok (checkRedirect { isOut, left, leftFd := -1, right, rightFd := -1 })
  | _ => .ok none

-- none is the error flag of the loop; '<' is looked for only in a token without '>'.
def scanTokensWith : Nat → List (List UInt8) → ArgumentScan → Except Stop (Option ArgumentScan)
  | _, [], scan => .ok (some scan)
  | index, token :: rest, scan =>
    let isOut := charInSet greater token
    let isIn := !isOut && charInSet less token
    if isOut || isIn then
      if index = 0 then .ok none
      else if isIn && isOut then .ok none
      else do
        match ← parseRedirectWith tokenizer token isOut with
        | none => .ok none
        | some redirect => scanTokensWith (index + 1) rest (scan.addRedirect index redirect)
    else if scan.redirectFound then .ok none
    else scanTokensWith (index + 1) rest scan

def parseProcessWith (command : List UInt8) : Except Stop ParsedProcess := do
  let tokens ← counted (tokenizer command whitespace false)
  if tokens.length = 0 then .ok .empty
  else
    let process := { emptyProcess with arguments := tokens.map some ++ [none] }
    match ← scanTokensWith tokenizer 0 tokens { process, redirectFound := false } with
    | none => .ok .error
    | some scan =>
      if scan.redirectFound then .ok (.process scan.process)
      else .ok (.process { scan.process with argc := tokens.length })

def parseStagesWith : List (List UInt8) → List Process → Except Stop ParsedStages
  | [], pipeline => .ok (.pipeline pipeline)
  | stage :: rest, pipeline => do
    match ← parseProcessWith tokenizer stage with
    | .error => .ok (.failed .syntaxError)
    | .empty => .ok (.failed .ok)
    | .process process => parseStagesWith rest (pipeline ++ [process])

def interpretLineWith (run : Builtin → List (Option (List UInt8)) → Nat → ParseResult)
    (below : UInt8) (line : Line) : Except Stop LineOutcome := do
  let (buff, bg) := takeBackground below (trimLine line)
  let stages ← counted (tokenizer (cstring buff) [bar] true)
  if stages.length = 0 then
    .ok { job := none, handoff := none, result := if bg then .syntaxError else .ok }
  else
    match ← parseStagesWith tokenizer stages [] with
    | .failed result => .ok { job := none, handoff := none, result }
    | .pipeline pipeline =>
      .ok (dispatch run { emptyJob with fg := !bg, pipeline, pipelineSize := stages.length })

end

section

variable (run : Builtin → List (Option (List UInt8)) → Nat → ParseResult) (below : UInt8)
  (line : Line)

def parseRedirect (str : List UInt8) (isOut : Bool) : Except Stop (Option Redirect) :=
  parseRedirectWith parseTokens str isOut

def scanTokens (index : Nat) (tokens : List (List UInt8)) (scan : ArgumentScan) :
    Except Stop (Option ArgumentScan) :=
  scanTokensWith parseTokens index tokens scan

def parseProcess (command : List UInt8) : Except Stop ParsedProcess :=
  parseProcessWith parseTokens command

def parseStages (stages : List (List UInt8)) (pipeline : List Process) :
    Except Stop ParsedStages :=
  parseStagesWith parseTokens stages pipeline

def interpretLine : Except Stop LineOutcome := interpretLineWith parseTokens run below line

end

@[simp] theorem scanTokens_nil (index : Nat) (scan : ArgumentScan) :
    scanTokens index [] scan = .ok (some scan) := rfl

theorem scanTokens_cons (index : Nat) (token : List UInt8) (rest : List (List UInt8))
    (scan : ArgumentScan) :
    scanTokens index (token :: rest) scan =
      let isOut := charInSet greater token
      let isIn := !isOut && charInSet less token
      if isOut || isIn then
        if index = 0 then .ok none
        else if isIn && isOut then .ok none
        else parseRedirect token isOut >>= fun
          | none => .ok none
          | some redirect => scanTokens (index + 1) rest (scan.addRedirect index redirect)
      else if scan.redirectFound then .ok none
      else scanTokens (index + 1) rest scan := rfl

@[simp] theorem parseStages_nil (pipeline : List Process) :
    parseStages [] pipeline = .ok (.pipeline pipeline) := rfl

theorem parseStages_cons (stage : List UInt8) (rest : List (List UInt8))
    (pipeline : List Process) :
    parseStages (stage :: rest) pipeline =
      parseProcess stage >>= fun
        | .error => .ok (.failed .syntaxError)
        | .empty => .ok (.failed .ok)
        | .process process => parseStages rest (pipeline ++ [process]) := rfl

end Akiso.Shell
