import Mathlib.Data.List.FinRange
import Akiso.Shared.CString
import Akiso.Shared.Strtol
import Akiso.Shared.Transition
import Akiso.Minitalk.ReadLine

set_option autoImplicit false

namespace Akiso.Minitalk

open CString Strtol

structure User where
  fd : Nat
  name : Option (List UInt8)
  toFd : Int
  deriving DecidableEq, Repr

def fdUnassigned : Int := 0

def fdAwaiting : Int := -1

-- logged_in is zeroed at the start.
def noUser : User := { fd := 0, name := none, toFd := fdUnassigned }

abbrev Slot := Fin 16

-- Connections are numbered in the order they are accepted, whatever their descriptors.
abbrev ConnId := Nat

inductive Owner where
  | system
  | connection (conn : ConnId)
  deriving DecidableEq, Repr

abbrev FdSet := List Nat

def selectBound : Nat := 20

def fdSet (fd : Nat) (set : FdSet) : FdSet :=
  if fd ∈ set then set else fd :: set

def fdClr (fd : Nat) (set : FdSet) : FdSet :=
  set.filter fun other => other ≠ fd

inductive ServerEvent where
  | arrived (conn : ConnId) (outcome : ReadOutcome)
  | accepted (conn : ConnId) (stored : Bool)
  | consumed (conn : ConnId) (bytes : List UInt8)
  | selected (sender target : ConnId)
  | forwarded (sender target : Option ConnId) (bytes : List UInt8)
  | prompted (conn : Option ConnId) (entries : List (Slot × List UInt8))
  | closed (conn : ConnId)
  deriving DecidableEq, Repr

/-- Where the main loop stands; the scans keep the slots still to be looked at. -/
inductive Phase where
  | accepting
  | selecting (readable writable : FdSet)
  | serving (slots : List Slot) (readable writable : FdSet)
  | prompting (slots : List Slot) (writable : FdSet)
  deriving DecidableEq, Repr

structure Server where
  loggedIn : Slot → User
  descriptors : Nat → Option Owner
  inbox : ConnId → List ReadOutcome
  nextConn : ConnId
  phase : Phase
  events : List ServerEvent

namespace Server

def connection (server : Server) (fd : Nat) : Option ConnId :=
  match server.descriptors fd with
  | some (.connection conn) => some conn
  | _ => none

def log (server : Server) (event : ServerEvent) : Server :=
  { server with events := event :: server.events }

def setUser (server : Server) (slot : Slot) (user : User) : Server :=
  { server with loggedIn := Function.update server.loggedIn slot user }

@[simp] theorem setUser_self (server : Server) (slot : Slot) (user : User) :
    (server.setUser slot user).loggedIn slot = user :=
  Function.update_self _ _ _

theorem setUser_other (server : Server) {slot other : Slot} (user : User)
    (different : other ≠ slot) :
    (server.setUser slot user).loggedIn other = server.loggedIn other :=
  Function.update_of_ne different _ _

end Server

def removeUser (server : Server) (slot : Slot) : Server :=
  let fd := (server.loggedIn slot).fd
  let forget (user : User) : User :=
    if user.toFd = fd then { user with toFd := fdUnassigned } else user
  { server with
    descriptors := Function.update server.descriptors fd none
    loggedIn := Function.update (fun other => forget (server.loggedIn other)) slot noUser
    events := (server.connection fd).toList.map .closed ++ server.events }

def consume (server : Server) (conn : ConnId) (rest : List ReadOutcome) : Server :=
  let taken := (bytesOf (server.inbox conn)).take
    ((bytesOf (server.inbox conn)).length - (bytesOf rest).length)
  { server with inbox := Function.update server.inbox conn rest }.log (.consumed conn taken)

-- read_user: none while read_line is blocked, else what the buffer holds, or none for -1.
def readUser (server : Server) (slot : Slot) (leaveNewline : Bool) :
    Option (Server × Option (List UInt8)) :=
  match server.connection (server.loggedIn slot).fd with
  | none => some (removeUser server slot, none)
  | some conn =>
    match readLine bufferSize [] (server.inbox conn) with
    | none => none
    | some (none, rest) => some (removeUser (consume server conn rest) slot, none)
    | some (some [], rest) => some (removeUser (consume server conn rest) slot, none)
    | some (some buff, rest) =>
      if buff.length < bufferSize ∧ leaveNewline = false then
        some (consume server conn rest, some (buff.dropLast ++ [0]))
      else some (consume server conn rest, some buff)

theorem readUser_cases {server next : Server} {slot : Slot} {leaveNewline : Bool}
    {result : Option (List UInt8)} {conn : ConnId}
    (connected : server.connection (server.loggedIn slot).fd = some conn)
    (returned : readUser server slot leaveNewline = some (next, result)) :
    ∃ line rest, readLine bufferSize [] (server.inbox conn) = some (line, rest) ∧
      ((result = none ∧ next = removeUser (consume server conn rest) slot) ∨
        ∃ buff, line = some buff ∧ next = consume server conn rest ∧
          result = some (if buff.length < bufferSize ∧ leaveNewline = false
            then buff.dropLast ++ [0] else buff)) := by
  simp only [readUser, connected] at returned
  split at returned
  next => simp at returned
  next rest finished =>
    simp only [Option.some.injEq, Prod.mk.injEq] at returned
    exact ⟨none, rest, finished, .inl ⟨returned.2.symm, returned.1.symm⟩⟩
  next rest finished =>
    simp only [Option.some.injEq, Prod.mk.injEq] at returned
    exact ⟨some [], rest, finished, .inl ⟨returned.2.symm, returned.1.symm⟩⟩
  next buff rest _ finished =>
    split at returned
    next stripped =>
      simp only [Option.some.injEq, Prod.mk.injEq] at returned
      refine ⟨some buff, rest, finished, .inr ⟨buff, rfl, returned.1.symm, ?_⟩⟩
      rw [if_pos stripped]
      exact returned.2.symm
    next whole =>
      simp only [Option.some.injEq, Prod.mk.injEq] at returned
      refine ⟨some buff, rest, finished, .inr ⟨buff, rfl, returned.1.symm, ?_⟩⟩
      rw [if_neg whole]
      exact returned.2.symm

def freeSlot (loggedIn : Slot → User) : Option Slot :=
  (List.finRange 16).find? fun slot => (loggedIn slot).fd = 0

def openConnection (server : Server) (peer : Nat) : Server :=
  { server with
    descriptors := Function.update server.descriptors peer (some (.connection server.nextConn))
    nextConn := server.nextConn + 1 }

-- A descriptor that finds no free slot is neither stored nor closed.
def acceptPeer (server : Server) (peer : Nat) : Server :=
  match freeSlot server.loggedIn with
  | some slot =>
    ((openConnection server peer).setUser slot { server.loggedIn slot with fd := peer }).log
      (.accepted server.nextConn true)
  | none => (openConnection server peer).log (.accepted server.nextConn false)

theorem acceptPeer_cases (server : Server) (peer : Nat) :
    (∃ slot, (server.loggedIn slot).fd = 0 ∧ acceptPeer server peer =
      ((openConnection server peer).setUser slot { server.loggedIn slot with fd := peer }).log
        (.accepted server.nextConn true)) ∨
      ((∀ slot, (server.loggedIn slot).fd ≠ 0) ∧ acceptPeer server peer =
        (openConnection server peer).log (.accepted server.nextConn false)) := by
  unfold acceptPeer
  cases found : freeSlot server.loggedIn with
  | some slot =>
    have free : (server.loggedIn slot).fd = 0 := by simpa using List.find?_some found
    exact .inl ⟨slot, free, rfl⟩
  | none =>
    refine .inr ⟨fun slot gone => ?_, rfl⟩
    have taken := List.find?_eq_none.mp found slot (List.mem_finRange slot)
    simp [gone] at taken

def awaitSelection (user : User) : User :=
  if user.fd ≠ 0 ∧ user.name ≠ none ∧ ¬ 0 < user.toFd ∧ user.toFd ≠ fdAwaiting then
    { user with toFd := fdAwaiting }
  else user

def addReadable (user : User) (set : FdSet) : FdSet :=
  if user.fd ≠ 0 then fdSet user.fd set else set

def addWritable (user : User) (set : FdSet) : FdSet :=
  if user.fd ≠ 0 ∧ user.name ≠ none then
    if 0 < user.toFd then fdSet user.toFd.toNat set
    else if user.toFd ≠ fdAwaiting then fdSet user.fd set
    else set
  else set

def buildSets (server : Server) : Server :=
  let users := (List.finRange 16).map server.loggedIn
  { server with
    loggedIn := fun slot => awaitSelection (server.loggedIn slot)
    phase := .selecting (users.foldl (fun set user => addReadable user set) [])
      (users.foldl (fun set user => addWritable user set) []) }

def selectedSlot (buff : List UInt8) : Option Slot :=
  let (value, rest) := strtol (cstring buff)
  let newTo := toInt value
  if rest ≠ [] ∨ newTo < 0 ∨ 16 ≤ newTo then none else some (Fin.ofNat 16 newTo.toNat)

def selectTarget (server : Server) (slot : Slot) (buff : List UInt8) : Server :=
  match selectedSlot buff with
  | none => removeUser server slot
  | some newTo =>
    let target := server.loggedIn newTo
    if target.fd = 0 ∨ target.name = none then removeUser server slot
    else
      let user := server.loggedIn slot
      let chosen := server.setUser slot { user with toFd := target.fd }
      match server.connection user.fd, server.connection target.fd with
      | some sender, some receiver => chosen.log (.selected sender receiver)
      | _, _ => chosen

-- Nobody looks at what write returns; where SIGPIPE comes of it the run ends, see talkStep.
def forwardLine (server : Server) (slot : Slot) (buff : List UInt8) : Server :=
  let user := server.loggedIn slot
  server.log (.forwarded (server.connection user.fd) (server.connection user.toFd.toNat) buff)

-- One turn of the loop over the readable users; none while a read is blocked.
def serveSlot (server : Server) (slot : Slot) (readable writable : FdSet) :
    Option (Server × FdSet) :=
  let user := server.loggedIn slot
  if user.fd = 0 ∨ user.fd ∉ readable then some (server, writable)
  else if user.name = none then
    (readUser server slot false).map fun (server, result) =>
      match result with
      | none => (server, writable)
      | some buff =>
        (server.setUser slot { server.loggedIn slot with name := some (cstring buff) }, writable)
  else if user.toFd = fdAwaiting then
    (readUser server slot false).map fun (server, result) =>
      match result with
      | none => (server, writable)
      | some buff => (selectTarget server slot buff, writable)
  else if 0 < user.toFd ∧ user.toFd.toNat ∈ writable then
    (readUser server slot true).map fun (server, result) =>
      match result with
      | none => (server, writable)
      | some buff =>
        (forwardLine server slot buff, fdClr (server.loggedIn slot).toFd.toNat writable)
  else some (server, writable)

inductive Turn (server : Server) (slot : Slot) (writable : FdSet) (conn : ConnId)
    (rest : List ReadOutcome) : Option (List UInt8) → Server → FdSet → Prop where
  | removed {line : Option (List UInt8)} : Turn server slot writable conn rest line
      (removeUser (consume server conn rest) slot) writable
  | named {line : List UInt8} (name : List UInt8) : (server.loggedIn slot).name = none →
      Turn server slot writable conn rest line ((consume server conn rest).setUser slot
        { server.loggedIn slot with name := some name }) writable
  | selected {line : List UInt8} (buff : List UInt8) :
      (server.loggedIn slot).name ≠ none → (server.loggedIn slot).toFd = fdAwaiting →
      Turn server slot writable conn rest line
        (selectTarget (consume server conn rest) slot buff) writable
  | forwarded {line : List UInt8} : (server.loggedIn slot).name ≠ none →
      0 < (server.loggedIn slot).toFd → (server.loggedIn slot).toFd.toNat ∈ writable →
      Turn server slot writable conn rest line (forwardLine (consume server conn rest) slot line)
        (fdClr (server.loggedIn slot).toFd.toNat writable)

theorem serveSlot_cases {server next : Server} {slot : Slot} {readable writable left : FdSet}
    (stored : (server.loggedIn slot).fd ≠ 0 →
      ∃ conn, server.connection (server.loggedIn slot).fd = some conn)
    (served : serveSlot server slot readable writable = some (next, left)) :
    (next = server ∧ left = writable) ∨
      ∃ conn line rest, (server.loggedIn slot).fd ≠ 0 ∧ (server.loggedIn slot).fd ∈ readable ∧
        server.connection (server.loggedIn slot).fd = some conn ∧
        readLine bufferSize [] (server.inbox conn) = some (line, rest) ∧
        Turn server slot writable conn rest line next left := by
  unfold serveSlot at served
  dsimp only at served
  split at served
  next =>
    simp only [Option.some.injEq, Prod.mk.injEq] at served
    exact .inl ⟨served.1.symm, served.2.symm⟩
  next here =>
    obtain ⟨present, ready⟩ := not_or.mp here
    replace ready := not_not.mp ready
    obtain ⟨conn, connected⟩ := stored present
    have read : ∀ {leaveNewline : Bool} {after : Server} {result : Option (List UInt8)},
        readUser server slot leaveNewline = some (after, result) →
        ∃ line rest, readLine bufferSize [] (server.inbox conn) = some (line, rest) ∧
          ((result = none ∧ after = removeUser (consume server conn rest) slot) ∨
            ∃ buff, line = some buff ∧ after = consume server conn rest ∧
              result = some (if buff.length < bufferSize ∧ leaveNewline = false
                then buff.dropLast ++ [0] else buff)) :=
      fun returned => readUser_cases connected returned
    split at served
    next nameless =>
      obtain ⟨⟨after, result⟩, returned, served⟩ := Option.map_eq_some_iff.mp served
      obtain ⟨line, rest, finished, ⟨rfl, rfl⟩ | ⟨buff, rfl, rfl, rfl⟩⟩ := read returned
      · cases served
        exact .inr ⟨conn, line, rest, present, ready, connected, finished, .removed⟩
      · cases served
        exact .inr ⟨conn, some buff, rest, present, ready, connected, finished, .named _ nameless⟩
    next named =>
      split at served
      next awaiting =>
        obtain ⟨⟨after, result⟩, returned, served⟩ := Option.map_eq_some_iff.mp served
        obtain ⟨line, rest, finished, ⟨rfl, rfl⟩ | ⟨buff, rfl, rfl, rfl⟩⟩ := read returned
        · cases served
          exact .inr ⟨conn, line, rest, present, ready, connected, finished, .removed⟩
        · cases served
          exact .inr ⟨conn, some buff, rest, present, ready, connected, finished,
            .selected _ named awaiting⟩
      next =>
        split at served
        next forwarding =>
          obtain ⟨⟨after, result⟩, returned, served⟩ := Option.map_eq_some_iff.mp served
          obtain ⟨line, rest, finished, ⟨rfl, rfl⟩ | ⟨buff, rfl, rfl, rfl⟩⟩ := read returned
          · cases served
            exact .inr ⟨conn, line, rest, present, ready, connected, finished, .removed⟩
          · cases served
            refine .inr ⟨conn, some buff, rest, present, ready, connected, finished, ?_⟩
            rw [if_neg (by simp)]
            exact .forwarded named forwarding.1 forwarding.2
        next =>
          simp only [Option.some.injEq, Prod.mk.injEq] at served
          exact .inl ⟨served.1.symm, served.2.symm⟩

def promptEntries (server : Server) (slot : Slot) : List (Slot × List UInt8) :=
  (List.finRange 16).filterMap fun other =>
    if other = slot ∨ (server.loggedIn other).fd = 0 then none
    else (server.loggedIn other).name.map fun name => (other, name)

def promptSlot (server : Server) (slot : Slot) (writable : FdSet) : Server :=
  let user := server.loggedIn slot
  if user.fd ∈ writable ∧ user.toFd = fdAwaiting then
    if promptEntries server slot = [] then server
    else server.log (.prompted (server.connection user.fd) (promptEntries server slot))
  else server

theorem promptSlot_cases (server : Server) (slot : Slot) (writable : FdSet) :
    promptSlot server slot writable = server ∨ promptSlot server slot writable =
      server.log (.prompted (server.connection (server.loggedIn slot).fd)
        (promptEntries server slot)) := by
  unfold promptSlot
  dsimp only
  split
  next =>
    split
    next => exact .inl rfl
    next => exact .inr rfl
  next => exact .inl rfl

inductive ServerLabel where
  | arrive (conn : ConnId) (outcomes : List ReadOutcome)
  | accept (peer : Nat)
  | interrupted
  | timeout
  | ready (readable writable : FdSet)
  | serve
  | prompt
  deriving DecidableEq, Repr

def receive (server : Server) (conn : ConnId) (outcomes : List ReadOutcome) : Server :=
  { server with
    inbox := Function.update server.inbox conn (server.inbox conn ++ outcomes)
    events := (outcomes.map (.arrived conn)).reverse ++ server.events }

def serverStep (server : Server) : ServerLabel → Option Server
  | .arrive conn outcomes =>
    if conn < server.nextConn then some (receive server conn outcomes) else none
  | .accept peer =>
    if server.phase = .accepting ∧ server.descriptors peer = none then
      some (buildSets (acceptPeer server peer))
    else none
  | .interrupted => if server.phase = .accepting then some (buildSets server) else none
  | .timeout =>
    match server.phase with
    | .selecting _ _ => some { server with phase := .accepting }
    | _ => none
  | .ready readable writable =>
    match server.phase with
    | .selecting offered wanted =>
      if readable ⊆ offered ∧ writable ⊆ wanted then
        some { server with phase := .serving (List.finRange 16) readable writable }
      else none
    | _ => none
  | .serve =>
    match server.phase with
    | .serving (slot :: rest) readable writable =>
      (serveSlot server slot readable writable).map fun (server, writable) =>
        { server with phase := .serving rest readable writable }
    | .serving [] _ writable => some { server with phase := .prompting (List.finRange 16) writable }
    | _ => none
  | .prompt =>
    match server.phase with
    | .prompting (slot :: rest) writable =>
      some { promptSlot server slot writable with phase := .prompting rest writable }
    | .prompting [] _ => some { server with phase := .accepting }
    | _ => none

inductive ServerChange (server : Server) : ServerLabel → Server → Prop where
  | received (conn : ConnId) (outcomes : List ReadOutcome) : conn < server.nextConn →
      ServerChange server (.arrive conn outcomes) (receive server conn outcomes)
  | accepted (peer : Nat) : server.phase = .accepting → server.descriptors peer = none →
      ServerChange server (.accept peer) (buildSets (acceptPeer server peer))
  | interrupted : server.phase = .accepting →
      ServerChange server .interrupted (buildSets server)
  | timedOut (offered wanted : FdSet) : server.phase = .selecting offered wanted →
      ServerChange server .timeout { server with phase := .accepting }
  | readied (offered wanted readable writable : FdSet) :
      server.phase = .selecting offered wanted → readable ⊆ offered → writable ⊆ wanted →
      ServerChange server (.ready readable writable)
        { server with phase := .serving (List.finRange 16) readable writable }
  | served (slot : Slot) (rest : List Slot) (readable writable left : FdSet) (next : Server) :
      server.phase = .serving (slot :: rest) readable writable →
      serveSlot server slot readable writable = some (next, left) →
      ServerChange server .serve { next with phase := .serving rest readable left }
  | allServed (readable writable : FdSet) : server.phase = .serving [] readable writable →
      ServerChange server .serve { server with phase := .prompting (List.finRange 16) writable }
  | prompted (slot : Slot) (rest : List Slot) (writable : FdSet) :
      server.phase = .prompting (slot :: rest) writable → ServerChange server .prompt
        { promptSlot server slot writable with phase := .prompting rest writable }
  | allPrompted (writable : FdSet) : server.phase = .prompting [] writable →
      ServerChange server .prompt { server with phase := .accepting }

theorem serverStep_cases {server next : Server} {label : ServerLabel}
    (taken : serverStep server label = some next) : ServerChange server label next := by
  cases label with
  | arrive conn outcomes =>
    simp only [serverStep, Option.ite_none_right_eq_some, Option.some.injEq] at taken
    exact taken.2 ▸ .received conn outcomes taken.1
  | accept peer =>
    simp only [serverStep, Option.ite_none_right_eq_some, Option.some.injEq] at taken
    exact taken.2 ▸ .accepted peer taken.1.1 taken.1.2
  | interrupted =>
    simp only [serverStep, Option.ite_none_right_eq_some, Option.some.injEq] at taken
    exact taken.2 ▸ .interrupted taken.1
  | timeout =>
    simp only [serverStep] at taken
    split at taken
    next offered wanted selecting =>
      cases taken
      exact .timedOut offered wanted selecting
    next => simp at taken
  | ready readable writable =>
    simp only [serverStep] at taken
    split at taken
    next offered wanted selecting =>
      simp only [Option.ite_none_right_eq_some, Option.some.injEq] at taken
      exact taken.2 ▸ .readied offered wanted readable writable selecting taken.1.1 taken.1.2
    next => simp at taken
  | serve =>
    simp only [serverStep] at taken
    split at taken
    next slot rest readable writable serving =>
      obtain ⟨⟨served, left⟩, turn, taken⟩ := Option.map_eq_some_iff.mp taken
      exact taken ▸ .served slot rest readable writable left served serving turn
    next readable writable serving =>
      cases taken
      exact .allServed readable writable serving
    next => simp at taken
  | prompt =>
    simp only [serverStep] at taken
    split at taken
    next slot rest writable prompting =>
      cases taken
      exact .prompted slot rest writable prompting
    next writable prompting =>
      cases taken
      exact .allPrompted writable prompting
    next => simp at taken

structure SystemDescriptors where
  isOpen : Nat → Bool
  zero : isOpen 0 = true

def initialServer (system : SystemDescriptors) : Server :=
  { loggedIn := fun _ => noUser
    descriptors := fun fd => if system.isOpen fd then some .system else none
    inbox := fun _ => [], nextConn := 0, phase := .accepting, events := [] }

end Akiso.Minitalk
