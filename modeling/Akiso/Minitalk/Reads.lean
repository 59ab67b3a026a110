import Akiso.Minitalk.Relay
import Akiso.Minitalk.Retained

set_option autoImplicit false

namespace Akiso.Minitalk

def ServerEvent.readFrom (conn : ConnId) : ServerEvent → Option (List UInt8)
  | .consumed other bytes => if other = conn then some bytes else none
  | _ => none

def consumedLines (conn : ConnId) (events : List ServerEvent) : List (List UInt8) :=
  events.reverse.filterMap (ServerEvent.readFrom conn)

def Open (server : Server) (conn : ConnId) : Prop :=
  (∃ fd, server.connection fd = some conn) ∨ server.nextConn ≤ conn

def ServerEvent.idle : ServerEvent → Bool
  | .consumed _ _ => false
  | .forwarded _ _ _ => false
  | _ => true

/-- What a step of the server reads: nothing, or the line in front of one connection, which is then
closed, or lives on and may have had the line forwarded. -/
inductive Reads (server next : Server) : Prop where
  | nothing (added : List ServerEvent) : next.events = added ++ server.events →
      (∀ event ∈ added, event.idle = true) → next.inbox = server.inbox → Reads server next
  | closing (fd : Nat) (conn : ConnId) (result : Option (List UInt8)) (rest : List ReadOutcome) :
      server.connection fd = some conn →
      readLine bufferSize [] (server.inbox conn) = some (result, rest) →
      next.inbox = Function.update server.inbox conn rest →
      next.events = .closed conn :: .consumed conn (nextLine (server.inbox conn)) ::
        server.events →
      (∀ fd, next.connection fd ≠ some conn) → next.nextConn = server.nextConn →
      Reads server next
  | keeping (fd : Nat) (conn : ConnId) (line : List UInt8) (rest : List ReadOutcome)
      (added : List ServerEvent) : server.connection fd = some conn →
      readLine bufferSize [] (server.inbox conn) = some (some line, rest) → line ≠ [] →
      next.inbox = Function.update server.inbox conn rest →
      next.events = added ++ .consumed conn (nextLine (server.inbox conn)) :: server.events →
      (∀ event ∈ added, event.idle = true) ∨
        (∃ target, added = [.forwarded (some conn) (some target) line]) → Reads server next

variable {server next : Server} {conn : ConnId} {slot : Slot} {readable writable left : FdSet}
  {rest : List ReadOutcome} {added : List ServerEvent} {line body : List UInt8} {n : Nat}

theorem consumedLines_append (newer older : List ServerEvent) :
    consumedLines conn (newer ++ older) = consumedLines conn older ++ consumedLines conn newer := by
  simp [consumedLines]

theorem consumedLines_idle (idle : ∀ event ∈ added, event.idle = true) :
    consumedLines conn added = [] := by
  simp only [consumedLines, List.filterMap_eq_nil_iff, List.mem_reverse]
  intro event member
  have quiet := idle event member
  cases event <;> simp_all [ServerEvent.idle, ServerEvent.readFrom]

theorem consumedLines_cons {event : ServerEvent} (unread : event.readFrom conn = none)
    (events : List ServerEvent) :
    consumedLines conn (event :: events) = consumedLines conn events := by
  simp [consumedLines, unread]

theorem consumedLines_consumed (reader : ConnId) (events : List ServerEvent) :
    consumedLines conn (.consumed reader line :: events) =
      consumedLines conn events ++ if reader = conn then [line] else [] := by
  rw [← List.singleton_append, consumedLines_append]
  by_cases same : reader = conn <;> simp [consumedLines, ServerEvent.readFrom, same]

theorem readUser_ended {leaveNewline : Bool} {result : Option (List UInt8)}
    (connected : server.connection (server.loggedIn slot).fd = some conn)
    (returned : readLine bufferSize [] (server.inbox conn) = some (result, rest))
    (ended : result = none ∨ result = some []) :
    readUser server slot leaveNewline =
      some (removeUser (consume server conn rest) slot, none) := by
  rcases ended with rfl | rfl <;> simp [readUser, connected, returned]

theorem serveSlot_ended {result : Option (List UInt8)}
    (connected : server.connection (server.loggedIn slot).fd = some conn)
    (returned : readLine bufferSize [] (server.inbox conn) = some (result, rest))
    (ended : result = none ∨ result = some [])
    (served : serveSlot server slot readable writable = some (next, left)) :
    next = server ∨ next = removeUser (consume server conn rest) slot := by
  simp only [serveSlot, readUser_ended connected returned ended, Option.map_some] at served
  split at served
  next => exact .inl (by simp_all)
  next =>
    split at served
    next => exact .inr (by simp_all)
    next =>
      split at served
      next => exact .inr (by simp_all)
      next =>
        split at served
        next => exact .inr (by simp_all)
        next => exact .inl (by simp_all)

theorem removeUser_closes (routed : Routed server)
    (connected : server.connection (server.loggedIn slot).fd = some conn) (fd : Nat) :
    (removeUser server slot).connection fd ≠ some conn := by
  rw [removeUser_connection]
  split
  next => simp
  next other => exact fun found => other (routed.apart _ _ _ found connected)

theorem removeUser_consume_events
    (connected : server.connection (server.loggedIn slot).fd = some conn)
    {result : Option (List UInt8)}
    (returned : readLine bufferSize [] (server.inbox conn) = some (result, rest)) :
    (removeUser (consume server conn rest) slot).events =
      .closed conn :: .consumed conn (nextLine (server.inbox conn)) :: server.events := by
  have same : (consume server conn rest).connection
      ((consume server conn rest).loggedIn slot).fd = some conn := connected
  rw [← Relaying.consume_events returned]
  simp [removeUser, same]

theorem serveSlot_reads (routed : Routed server)
    (served : serveSlot server slot readable writable = some (next, left)) :
    Reads server next := by
  rcases serveSlot_cases (routed.stored slot) served with
    ⟨rfl, -⟩ | ⟨conn, line, rest, present, -, connected, returned, turn⟩
  · exact .nothing [] rfl (by simp) rfl
  · have consumed := routed.consume conn rest
    have closing : Reads server (removeUser (consume server conn rest) slot) :=
      .closing _ conn line rest connected returned rfl
        (removeUser_consume_events connected returned) (removeUser_closes consumed connected) rfl
    by_cases ended : line = none ∨ line = some []
    · rcases serveSlot_ended connected returned ended served with rfl | rfl
      · exact .nothing [] rfl (by simp) rfl
      · exact closing
    obtain ⟨full, present'⟩ := not_or.mp ended
    have events := Relaying.consume_events returned
    cases turn with
    | removed => exact closing
    | @named line name nameless =>
      exact .keeping _ conn line rest [] connected returned (by simpa using present') rfl events
        (.inl (by simp))
    | @selected line buff named awaiting =>
      rcases consumed.selectTarget_cases present buff with
        removed | ⟨_, sender, receiver, _, _, _, _, chosen⟩
      · exact removed ▸ closing
      · rw [chosen]
        refine .keeping _ conn line rest [.selected sender receiver] connected returned
          (by simpa using present') rfl ?_ (.inl (by simp [ServerEvent.idle]))
        exact congrArg _ events
    | @forwarded line named forwarding wanted =>
      obtain ⟨sender, target, leaves, arrives, -⟩ := routed.routes slot forwarding
      obtain rfl : conn = sender := Option.some.inj (connected.symm.trans leaves)
      refine .keeping _ conn line rest [.forwarded (some conn) (some target) line] connected
        returned (by simpa using present') rfl ?_ (.inr ⟨target, rfl⟩)
      change .forwarded (server.connection (server.loggedIn slot).fd)
        (server.connection (server.loggedIn slot).toFd.toNat) line ::
          (consume server conn rest).events = _
      rw [leaves, arrives, events]
      rfl

theorem Reads.phase (reads : Reads server next) (phase : Phase) :
    Reads server { next with phase } := by
  cases reads with
  | nothing added events idle inbox => exact .nothing added events idle inbox
  | closing fd conn result rest connected returned inbox events gone numbers =>
    exact .closing fd conn result rest connected returned inbox events gone numbers
  | keeping fd conn line rest added connected returned full inbox events kind =>
    exact .keeping fd conn line rest added connected returned full inbox events kind

theorem step_reads (routed : Routed server) {label : ServerLabel}
    (internal : ∀ conn outcomes, label ≠ .arrive conn outcomes)
    (taken : serverStep server label = some next) : Reads server next := by
  cases serverStep_cases taken with
  | received conn outcomes _ => exact absurd rfl (internal conn outcomes)
  | accepted peer _ _ =>
    rcases acceptPeer_cases server peer with ⟨slot, -, stored⟩ | ⟨-, dropped⟩
    · rw [stored]
      exact .nothing [.accepted server.nextConn true] rfl (by simp [ServerEvent.idle]) rfl
    · rw [dropped]
      exact .nothing [.accepted server.nextConn false] rfl (by simp [ServerEvent.idle]) rfl
  | interrupted _ => exact .nothing [] rfl (by simp) rfl
  | timedOut _ _ _ => exact .nothing [] rfl (by simp) rfl
  | readied _ _ _ _ _ _ _ => exact .nothing [] rfl (by simp) rfl
  | served slot rest readable writable left next _ turn =>
    exact (serveSlot_reads routed turn).phase _
  | allServed _ _ _ => exact .nothing [] rfl (by simp) rfl
  | prompted slot rest writable _ =>
    rcases promptSlot_cases server slot writable with silent | prompted
    · rw [silent]
      exact .nothing [] rfl (by simp) rfl
    · rw [prompted]
      exact .nothing [.prompted _ _] rfl (by simp [ServerEvent.idle]) rfl
  | allPrompted _ _ => exact .nothing [] rfl (by simp) rfl

theorem serveSlot_nextConn (routed : Routed server)
    (served : serveSlot server slot readable writable = some (next, left)) :
    next.nextConn = server.nextConn := by
  rcases serveSlot_cases (routed.stored slot) served with
    ⟨rfl, -⟩ | ⟨conn, line, rest, present, -, connected, returned, turn⟩
  · rfl
  · cases turn with
    | removed => rfl
    | named name nameless => rfl
    | forwarded named forwarding wanted => rfl
    | selected buff named awaiting =>
      rcases (routed.consume conn rest).selectTarget_cases present buff with
        removed | ⟨_, _, _, _, _, _, _, chosen⟩
      · exact removed ▸ rfl
      · exact chosen ▸ rfl

theorem nextConn_le (routed : Routed server) {label : ServerLabel}
    (taken : serverStep server label = some next) : server.nextConn ≤ next.nextConn := by
  cases serverStep_cases taken with
  | accepted peer _ _ =>
    rcases acceptPeer_cases server peer with ⟨slot, -, stored⟩ | ⟨-, dropped⟩
    · exact stored ▸ Nat.le_succ _
    · exact dropped ▸ Nat.le_succ _
  | served slot rest readable writable left next _ turn =>
    exact (serveSlot_nextConn routed turn).ge
  | prompted slot rest writable _ =>
    rcases promptSlot_cases server slot writable with silent | prompted
    · rw [silent]
    · rw [prompted]
      exact Nat.le_refl _
  | received | interrupted | timedOut | readied | allServed | allPrompted => exact Nat.le_refl _

theorem Open.before (routed : Routed server) {label : ServerLabel}
    (taken : serverStep server label = some next) (after : Open next conn) : Open server conn := by
  rcases after with ⟨fd, found⟩ | ahead
  · cases step_moves routed taken with
    | kept _ connections _ => exact .inl ⟨fd, connections fd ▸ found⟩
    | removed slot _ connections _ =>
      rw [connections] at found
      split at found
      next => cases found
      next => exact .inl ⟨fd, found⟩
    | seated peer slot _ _ connections _ | dropped peer _ _ connections _ =>
      rw [connections] at found
      split at found
      next => exact .inr (Option.some.inj found).le
      next => exact .inl ⟨fd, found⟩
  · exact .inr ((nextConn_le routed taken).trans ahead)

theorem nextLine_plain (plain : newline ∉ body) (ends : List ReadOutcome) :
    nextLine (body.map .byte ++ ends) = body ++ nextLine ends := by
  induction body with
  | nil => rfl
  | cons value rest ih =>
    simp only [List.mem_cons, not_or] at plain
    simp [nextLine, Ne.symm plain.1, ih plain.2]

theorem readLine_plain (plain : newline ∉ body) (stored : List UInt8) (ends : List ReadOutcome) :
    ∃ kept, readLine n stored (body.map .byte ++ ends) = readLine n kept ends := by
  induction body generalizing stored with
  | nil => exact ⟨stored, rfl⟩
  | cons value rest ih =>
    simp only [List.mem_cons, not_or] at plain
    simpa [readLine, Ne.symm plain.1] using ih plain.2 (store n stored value)

theorem bytesOf_bytes (bytes : List UInt8) : bytesOf (bytes.map .byte) = bytes := by
  induction bytes with
  | nil => rfl
  | cons value rest ih => simp [bytesOf, ih]

end Akiso.Minitalk
