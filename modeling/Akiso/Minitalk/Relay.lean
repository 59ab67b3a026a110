import Akiso.Minitalk.Routing

set_option autoImplicit false

namespace Akiso.Minitalk

open Transition

def ServerEvent.sentBy (conn : ConnId) : ServerEvent → List UInt8
  | .arrived other outcome => if other = conn then bytesOf [outcome] else []
  | _ => []

def ServerEvent.takenFrom (conn : ConnId) : ServerEvent → List UInt8
  | .consumed other bytes => if other = conn then bytes else []
  | _ => []

def ServerEvent.writtenFor (sender target : ConnId) : ServerEvent → Option (List UInt8)
  | .forwarded source receiver bytes =>
    if source = some sender ∧ receiver = some target then some bytes else none
  | _ => none

-- Events are newest first; the three histories are in the order of time.
def sentBytes (conn : ConnId) (events : List ServerEvent) : List UInt8 :=
  events.reverse.flatMap (ServerEvent.sentBy conn)

def takenBytes (conn : ConnId) (events : List ServerEvent) : List UInt8 :=
  events.reverse.flatMap (ServerEvent.takenFrom conn)

def writtenLines (sender target : ConnId) (events : List ServerEvent) : List (List UInt8) :=
  events.reverse.filterMap (ServerEvent.writtenFor sender target)

-- Since the selection the target was sent what the sender sent after it, up to what is unread.
def Relayed (server : Server) : Prop :=
  ∀ sender target since before, server.events = since ++ .selected sender target :: before →
    Undisturbed sender target since →
    (sentBytes sender server.events).drop (takenBytes sender before).length =
        (writtenLines sender target since).flatten ++ bytesOf (server.inbox sender) ∧
      ∀ line ∈ writtenLines sender target since, newline ∉ line.dropLast

def forwardingConn (server : Server) : Option ConnId :=
  match server.phase with
  | .serving (slot :: _) readable writable =>
    let user := server.loggedIn slot
    if user.fd ∈ readable ∧ 0 < user.toFd ∧ user.toFd.toNat ∈ writable then
      server.connection user.fd
    else none
  | _ => none

def FittingLine (server : Server) (label : ServerLabel) : Prop :=
  label = .serve → ∀ conn ∈ forwardingConn server,
    (nextLine (server.inbox conn)).length < bufferSize

instance (server : Server) (label : ServerLabel) : Decidable (FittingLine server label) :=
  inferInstanceAs (Decidable (label = .serve → ∀ conn ∈ forwardingConn server,
    (nextLine (server.inbox conn)).length < bufferSize))

def Forwards (server : Server) (sender target : ConnId) : Prop :=
  ∃ slot, server.connection (server.loggedIn slot).fd = some sender ∧
    0 < (server.loggedIn slot).toFd ∧
    server.connection (server.loggedIn slot).toFd.toNat = some target

structure Faithful (sender target : ConnId) (events : List ServerEvent) : Prop where
  exact : takenBytes sender events = (writtenLines sender target events).flatten
  lines : ∀ line ∈ writtenLines sender target events, newline ∉ line.dropLast

structure Relaying (server : Server) : Prop where
  balanced : ∀ conn, sentBytes conn server.events =
    takenBytes conn server.events ++ bytesOf (server.inbox conn)
  kept : ∀ sender target since before, server.events = since ++ .selected sender target :: before →
    Undisturbed sender target since → Forwards server sender target ∧ Faithful sender target since

variable {conn sender target : ConnId} {newer older added : List ServerEvent}

theorem sentBytes_append :
    sentBytes conn (newer ++ older) = sentBytes conn older ++ sentBytes conn newer := by
  simp [sentBytes]

theorem takenBytes_append :
    takenBytes conn (newer ++ older) = takenBytes conn older ++ takenBytes conn newer := by
  simp [takenBytes]

theorem writtenLines_append : writtenLines sender target (newer ++ older) =
    writtenLines sender target older ++ writtenLines sender target newer := by
  simp [writtenLines]

theorem Faithful.append (new : Faithful sender target newer) (old : Faithful sender target older) :
    Faithful sender target (newer ++ older) where
  exact := by
    rw [takenBytes_append, writtenLines_append, List.flatten_append, new.exact, old.exact]
  lines line member := by
    rw [writtenLines_append] at member
    rcases List.mem_append.mp member with earlier | later
    · exact old.lines line earlier
    · exact new.lines line later

theorem Faithful.idle (untaken : ∀ event ∈ newer, event.takenFrom sender = [])
    (unwritten : ∀ event ∈ newer, event.writtenFor sender target = none) :
    Faithful sender target newer := by
  have taken : takenBytes sender newer = [] := by simpa [takenBytes] using untaken
  have written : writtenLines sender target newer = [] := by simpa [writtenLines] using unwritten
  constructor
  next => rw [taken, written, List.flatten_nil]
  next => simp [written]

theorem Faithful.nil : Faithful sender target [] :=
  .idle (by simp) (by simp)

theorem selection_split {event : ServerEvent} {since before : List ServerEvent}
    (split : newer ++ older = since ++ event :: before) :
    (∃ rest, newer = since ++ event :: rest) ∨
      ∃ rest, since = newer ++ rest ∧ older = rest ++ event :: before := by
  rcases List.append_eq_append_iff.mp split with ⟨rest, earlier, found⟩ | ⟨rest, new, found⟩
  · exact .inr ⟨rest, earlier, found⟩
  · cases rest with
    | nil =>
      simp only [List.append_nil] at new
      exact .inr ⟨[], by simp [new], found.symm⟩
    | cons head rest =>
      simp only [List.cons_append, List.cons.injEq] at found
      exact .inl ⟨rest, by rw [new, found.1]⟩

theorem selection_singleton {event : ServerEvent} {since before : List ServerEvent}
    {sender target : ConnId} (split : [event] = since ++ .selected sender target :: before) :
    event = .selected sender target ∧ since = [] := by
  rcases List.singleton_eq_append_iff.mp split with ⟨none, found⟩ | ⟨_, found⟩
  · exact ⟨(List.cons.inj found).1.symm, none⟩
  · simp at found

variable {server next : Server} {slot : Slot}

theorem Relaying.extend (relaying : Relaying server) (events : next.events = added ++ server.events)
    (balanced : ∀ conn, bytesOf (server.inbox conn) ++ sentBytes conn added =
      takenBytes conn added ++ bytesOf (next.inbox conn))
    (chosen : ∀ sender target since before, added = since ++ .selected sender target :: before →
      Forwards next sender target ∧ Faithful sender target since)
    (kept : ∀ sender target, Forwards server sender target → Undisturbed sender target added →
      Forwards next sender target ∧ Faithful sender target added) : Relaying next := by
  constructor
  case balanced =>
    intro conn
    rw [events, sentBytes_append, takenBytes_append, relaying.balanced conn, List.append_assoc,
      balanced conn, List.append_assoc]
  case kept =>
    intro sender target since before shape undisturbed
    rw [events] at shape
    rcases selection_split shape with ⟨rest, new⟩ | ⟨rest, whole, old⟩
    · exact chosen sender target since rest new
    · rw [whole] at undisturbed ⊢
      obtain ⟨forwards, faithful⟩ := relaying.kept sender target rest before old
        fun event member => undisturbed event (List.mem_append_right _ member)
      obtain ⟨still, new⟩ := kept sender target forwards
        fun event member => undisturbed event (List.mem_append_left _ member)
      exact ⟨still, new.append faithful⟩

theorem Relaying.relayed (relaying : Relaying server) : Relayed server := by
  intro sender target since before shape undisturbed
  obtain ⟨_, faithful⟩ := relaying.kept sender target since before shape undisturbed
  refine ⟨?_, faithful.lines⟩
  have taken : takenBytes sender server.events =
      takenBytes sender before ++ takenBytes sender since := by
    rw [shape, takenBytes_append]
    simp [takenBytes, ServerEvent.takenFrom]
  rw [relaying.balanced sender, taken, List.append_assoc, List.drop_left, faithful.exact]

theorem Forwards.mono (forwards : Forwards server sender target)
    (users : ∀ slot, 0 < (server.loggedIn slot).toFd →
      (next.loggedIn slot).fd = (server.loggedIn slot).fd ∧
        (next.loggedIn slot).toFd = (server.loggedIn slot).toFd)
    (connections : ∀ fd conn, server.connection fd = some conn → next.connection fd = some conn) :
    Forwards next sender target := by
  obtain ⟨slot, leaves, forwarding, arrives⟩ := forwards
  obtain ⟨fd, toFd⟩ := users slot forwarding
  refine ⟨slot, ?_, ?_, ?_⟩
  · rw [fd]
    exact connections _ _ leaves
  · rwa [toFd]
  · rw [toFd]
    exact connections _ _ arrives

theorem Forwards.removeUser (forwards : Forwards server sender target) (routed : Routed server)
    (present : (server.loggedIn slot).fd ≠ 0)
    (connected : server.connection (server.loggedIn slot).fd = some conn) (sends : conn ≠ sender)
    (receives : conn ≠ target) : Forwards (removeUser server slot) sender target := by
  obtain ⟨other, leaves, forwarding, arrives⟩ := forwards
  have different : other ≠ slot := by
    intro same
    rw [same, connected] at leaves
    exact sends (Option.some.inj leaves)
  have here : (server.loggedIn other).fd ≠ 0 :=
    routed.fd_ne_zero (by simp only [fdUnassigned]; omega)
  have apart : (server.loggedIn other).toFd.toNat ≠ (server.loggedIn slot).fd := by
    intro same
    rw [same, connected] at arrives
    exact receives (Option.some.inj arrives)
  have kept : (server.loggedIn other).toFd ≠ (server.loggedIn slot).fd := by omega
  refine ⟨other, ?_, ?_, ?_⟩
  · rw [removeUser_other different, removeUser_connection,
      if_neg (routed.distinct other slot different here present)]
    exact leaves
  · rw [removeUser_other different]
    simpa [kept] using forwarding
  · rw [removeUser_other different, removeUser_connection]
    simpa [kept, apart] using arrives

theorem Forwards.at_slot (forwards : Forwards server sender target) (routed : Routed server)
    (present : (server.loggedIn slot).fd ≠ 0)
    (connected : server.connection (server.loggedIn slot).fd = some sender) :
    0 < (server.loggedIn slot).toFd ∧
      server.connection (server.loggedIn slot).toFd.toNat = some target := by
  obtain ⟨other, leaves, forwarding, arrives⟩ := forwards
  have same := routed.sameSlot present (routed.apart _ _ _ leaves connected)
  rw [← same]
  exact ⟨forwarding, arrives⟩

namespace Relaying

theorem quiet (relaying : Relaying server) (added : List ServerEvent)
    (events : next.events = added ++ server.events)
    (balanced : ∀ conn, bytesOf (server.inbox conn) ++ sentBytes conn added =
      bytesOf (next.inbox conn))
    (untaken : ∀ conn, ∀ event ∈ added, event.takenFrom conn = [])
    (calm : ∀ event ∈ added, event.calm = true)
    (users : ∀ slot, 0 < (server.loggedIn slot).toFd →
      (next.loggedIn slot).fd = (server.loggedIn slot).fd ∧
        (next.loggedIn slot).toFd = (server.loggedIn slot).toFd)
    (connections : ∀ fd conn, server.connection fd = some conn → next.connection fd = some conn) :
    Relaying next := by
  refine relaying.extend events ?balanced ?chosen ?kept
  case balanced =>
    intro conn
    have nothing : takenBytes conn added = [] := by simpa [takenBytes] using untaken conn
    rw [balanced, nothing, List.nil_append]
  case chosen =>
    intro sender target since before shape
    have selected := calm (.selected sender target) (by simp [shape])
    simp [ServerEvent.calm] at selected
  case kept =>
    intro sender target forwards _
    refine ⟨forwards.mono users connections, .idle (untaken sender) ?_⟩
    intro event member
    have quiet := calm event member
    cases event <;> simp_all [ServerEvent.calm, ServerEvent.writtenFor]

theorem phase (relaying : Relaying server) (phase : Phase) :
    Relaying { server with phase := phase } :=
  relaying.quiet [] (List.nil_append _).symm (by simp [sentBytes]) (by simp) (by simp)
    (fun _ _ => ⟨rfl, rfl⟩) (fun _ _ found => found)

theorem receive (relaying : Relaying server) (conn : ConnId) (outcomes : List ReadOutcome) :
    Relaying (receive server conn outcomes) := by
  have single : ∀ outcomes : List ReadOutcome,
      (outcomes.flatMap fun outcome => bytesOf [outcome]) = bytesOf outcomes := by
    intro outcomes
    induction outcomes with
    | nil => rfl
    | cons outcome rest ih =>
      rw [List.flatMap_cons, ih, ← bytesOf_append, List.singleton_append]
  refine relaying.quiet _ rfl ?balanced ?untaken ?calm (fun _ _ => ⟨rfl, rfl⟩)
    (fun _ _ found => found)
  case balanced =>
    intro other
    by_cases same : other = conn
    · subst same
      simp [sentBytes, Minitalk.receive, List.flatMap_map, ServerEvent.sentBy, single]
    · have apart : conn ≠ other := Ne.symm same
      simp [sentBytes, Minitalk.receive, List.flatMap_map, ServerEvent.sentBy, same, apart]
  case untaken => simp [ServerEvent.takenFrom]
  case calm => simp [ServerEvent.calm]

theorem acceptPeer (relaying : Relaying server) (routed : Routed server) {peer : Nat}
    (fresh : server.descriptors peer = none) : Relaying (acceptPeer server peer) := by
  have connections : ∀ fd conn, server.connection fd = some conn →
      (openConnection server peer).connection fd = some conn :=
    fun _ _ found => openConnection_still fresh found
  have accepted : ∀ {next : Server} (stored : Bool),
      next.events = .accepted server.nextConn stored :: server.events →
      next.inbox = server.inbox →
      (∀ slot, 0 < (server.loggedIn slot).toFd → next.loggedIn slot = server.loggedIn slot) →
      (∀ fd conn, server.connection fd = some conn → next.connection fd = some conn) →
      Relaying next := by
    intro next stored events inbox users connections
    refine relaying.quiet [.accepted server.nextConn stored] events ?_ ?_ ?_ ?_ connections
    · simp [sentBytes, ServerEvent.sentBy, inbox]
    · simp [ServerEvent.takenFrom]
    · simp [ServerEvent.calm]
    · intro slot forwarding
      rw [users slot forwarding]
      exact ⟨rfl, rfl⟩
  rcases acceptPeer_cases server peer with ⟨slot, free, stored⟩ | ⟨_, dropped⟩
  · rw [stored]
    refine accepted true rfl rfl ?_ connections
    intro other forwarding
    have different : other ≠ slot := by
      intro same
      rw [same, (routed.blank slot free).2] at forwarding
      simp [fdUnassigned] at forwarding
    exact Server.setUser_other _ _ different
  · rw [dropped]
    exact accepted false rfl rfl (fun _ _ => rfl) connections

theorem buildSets (relaying : Relaying server) : Relaying (buildSets server) := by
  refine relaying.quiet [] (List.nil_append _).symm ?_ (by simp) (by simp) ?_
    (fun _ _ found => found)
  · simp [sentBytes, Minitalk.buildSets]
  · intro slot forwarding
    have untouched : awaitSelection (server.loggedIn slot) = server.loggedIn slot := by
      simp [awaitSelection, forwarding]
    simp [Minitalk.buildSets, untouched]

theorem promptSlot (relaying : Relaying server) (slot : Slot) (writable : FdSet) :
    Relaying (promptSlot server slot writable) := by
  rcases promptSlot_cases server slot writable with silent | prompted
  · rw [silent]
    exact relaying
  · rw [prompted]
    refine relaying.quiet [.prompted (server.connection (server.loggedIn slot).fd)
      (promptEntries server slot)] rfl ?_ ?_ ?_ (fun _ _ => ⟨rfl, rfl⟩) (fun _ _ found => found)
    · simp [sentBytes, ServerEvent.sentBy, Server.log]
    · simp [ServerEvent.takenFrom]
    · simp [ServerEvent.calm]

theorem consume_events {rest : List ReadOutcome} {line : Option (List UInt8)}
    (finished : readLine bufferSize [] (server.inbox conn) = some (line, rest)) :
    (consume server conn rest).events =
      .consumed conn (nextLine (server.inbox conn)) :: server.events := by
  have consumed := readLine_consumes finished
  simp [consume, Server.log, consumed]

theorem read (relaying : Relaying server) {rest : List ReadOutcome} {line : Option (List UInt8)}
    (finished : readLine bufferSize [] (server.inbox conn) = some (line, rest))
    (events : next.events = added ++ (consume server conn rest).events)
    (inbox : next.inbox = (consume server conn rest).inbox)
    (silent : ∀ other, ∀ event ∈ added, event.sentBy other = [] ∧ event.takenFrom other = [])
    (chosen : ∀ sender target since before, added = since ++ .selected sender target :: before →
      Forwards next sender target ∧ Faithful sender target since)
    (others : ∀ sender target, sender ≠ conn → Forwards server sender target →
      Undisturbed sender target added → Forwards next sender target ∧
        ∀ event ∈ added, event.writtenFor sender target = none)
    (own : ∀ target, Forwards server conn target → Undisturbed conn target added →
      Forwards next conn target ∧ Faithful conn target
        (added ++ [.consumed conn (nextLine (server.inbox conn))])) : Relaying next := by
  have consumed := readLine_consumes finished
  have whole : next.events = (added ++ [.consumed conn (nextLine (server.inbox conn))]) ++
      server.events := by
    rw [events, consume_events finished, List.append_assoc, List.singleton_append]
  refine relaying.extend whole ?balanced ?chosen ?kept
  case balanced =>
    intro other
    have sent : sentBytes other added = [] := by
      simpa [sentBytes] using fun event member => (silent other event member).1
    have taken : takenBytes other added = [] := by
      simpa [takenBytes] using fun event member => (silent other event member).2
    rw [sentBytes_append, takenBytes_append, sent, taken, inbox]
    by_cases same : other = conn
    · subst same
      simp [sentBytes, takenBytes, ServerEvent.sentBy, ServerEvent.takenFrom, consume, Server.log,
        consumed]
    · have apart : conn ≠ other := Ne.symm same
      simp [sentBytes, takenBytes, ServerEvent.sentBy, ServerEvent.takenFrom, consume, Server.log,
        same, apart]
  case chosen =>
    intro sender target since before shape
    rcases selection_split shape with ⟨rest, new⟩ | ⟨rest, _, old⟩
    · exact chosen sender target since rest new
    · exact absurd (selection_singleton old).1 (by simp)
  case kept =>
    intro sender target forwards undisturbed
    have new : Undisturbed sender target added :=
      fun event member => undisturbed event (List.mem_append_left _ member)
    by_cases same : sender = conn
    · subst same
      exact own target forwards new
    · obtain ⟨still, unwritten⟩ := others sender target same forwards new
      refine ⟨still, .idle ?_ ?_⟩
      · intro event member
        rcases List.mem_append.mp member with later | read
        · exact (silent sender event later).2
        · have apart : conn ≠ sender := Ne.symm same
          simp [List.mem_singleton.mp read, ServerEvent.takenFrom, apart]
      · intro event member
        rcases List.mem_append.mp member with later | read
        · exact unwritten event later
        · simp [List.mem_singleton.mp read, ServerEvent.writtenFor]

theorem removed (relaying : Relaying server) (routed : Routed server) {rest : List ReadOutcome}
    {line : Option (List UInt8)} (present : (server.loggedIn slot).fd ≠ 0)
    (connected : server.connection (server.loggedIn slot).fd = some conn)
    (finished : readLine bufferSize [] (server.inbox conn) = some (line, rest)) :
    Relaying (removeUser (consume server conn rest) slot) := by
  have events : (removeUser (consume server conn rest) slot).events =
      [.closed conn] ++ (consume server conn rest).events := by
    have same :
        (consume server conn rest).connection ((consume server conn rest).loggedIn slot).fd =
          some conn := connected
    simp [removeUser, same]
  refine relaying.read finished events rfl ?silent ?chosen ?others ?own
  case silent => simp [ServerEvent.sentBy, ServerEvent.takenFrom]
  case chosen =>
    intro sender target since before shape
    exact absurd (selection_singleton shape).1 (by simp)
  case others =>
    intro sender target different forwards undisturbed
    have receives : conn ≠ target := by
      have closed := undisturbed (.closed conn) (by simp)
      simp only [ServerEvent.disturbs, Bool.or_eq_false_iff, decide_eq_false_iff_not] at closed
      exact closed.2
    have consumed : Forwards (consume server conn rest) sender target := forwards
    exact ⟨consumed.removeUser (routed.consume conn rest) present connected (Ne.symm different)
      receives, by simp [ServerEvent.writtenFor]⟩
  case own =>
    intro target _ undisturbed
    have closed := undisturbed (.closed conn) (by simp)
    simp [ServerEvent.disturbs] at closed

theorem named (relaying : Relaying server) (routed : Routed server) {rest : List ReadOutcome}
    {line : Option (List UInt8)} (present : (server.loggedIn slot).fd ≠ 0)
    (connected : server.connection (server.loggedIn slot).fd = some conn)
    (finished : readLine bufferSize [] (server.inbox conn) = some (line, rest))
    (nameless : (server.loggedIn slot).name = none) (name : List UInt8) :
    Relaying ((consume server conn rest).setUser slot
      { server.loggedIn slot with name := some name }) := by
  refine relaying.read finished (List.nil_append _).symm rfl ?silent ?chosen ?others ?own
  case silent => simp
  case chosen => simp
  case others =>
    intro sender target _ forwards _
    refine ⟨forwards.mono ?_ fun _ _ found => found, by simp⟩
    intro other _
    by_cases same : other = slot
    · simp [same]
    · rw [Server.setUser_other _ _ same]
      exact ⟨rfl, rfl⟩
  case own =>
    intro target forwards _
    have forwarding := (forwards.at_slot routed present connected).1
    rw [routed.nameless slot nameless] at forwarding
    simp [fdUnassigned] at forwarding

theorem selected (relaying : Relaying server) (routed : Routed server) {rest : List ReadOutcome}
    {line : Option (List UInt8)} (present : (server.loggedIn slot).fd ≠ 0)
    (connected : server.connection (server.loggedIn slot).fd = some conn)
    (finished : readLine bufferSize [] (server.inbox conn) = some (line, rest))
    (awaiting : (server.loggedIn slot).toFd = fdAwaiting) (buff : List UInt8) :
    Relaying (selectTarget (consume server conn rest) slot buff) := by
  have unassigned : ∀ target, ¬ Forwards server conn target := by
    intro target forwards
    have forwarding := (forwards.at_slot routed present connected).1
    rw [awaiting] at forwarding
    simp [fdAwaiting] at forwarding
  rcases (routed.consume conn rest).selectTarget_cases present buff with
    removed | ⟨newTo, source, receiver, there, _, leaves, arrives, selected⟩
  · rw [removed]
    exact relaying.removed routed present connected finished
  · have same : source = conn := Option.some.inj (leaves.symm.trans connected)
    subst same
    rw [selected]
    have now : Forwards (((consume server source rest).setUser slot
        { (consume server source rest).loggedIn slot with
          toFd := ((consume server source rest).loggedIn newTo).fd }).log
          (.selected source receiver)) source receiver := by
      refine ⟨slot, ?_, ?_, ?_⟩
      all_goals simp only [Server.log, Server.setUser_self]
      · exact leaves
      · exact Int.natCast_pos.mpr (Nat.pos_of_ne_zero there)
      · exact arrives
    refine relaying.read finished (List.singleton_append ..).symm rfl ?silent ?chosen ?others ?own
    case silent => simp [ServerEvent.sentBy, ServerEvent.takenFrom]
    case chosen =>
      intro sender target since before shape
      obtain ⟨same, first⟩ := selection_singleton shape
      obtain ⟨rfl, rfl⟩ := ServerEvent.selected.inj same
      exact ⟨now, first ▸ .nil⟩
    case others =>
      intro sender target different forwards _
      refine ⟨?_, by simp [ServerEvent.writtenFor]⟩
      obtain ⟨other, departs, forwarding, reaches⟩ := forwards
      have apart : other ≠ slot := by
        intro same
        rw [same, connected] at departs
        exact different (Option.some.inj departs).symm
      refine ⟨other, ?_, ?_, ?_⟩
      all_goals simp only [Server.log, Server.setUser_other _ _ apart]
      · exact departs
      · exact forwarding
      · exact reaches
    case own => exact fun target forwards => absurd forwards (unassigned target)

theorem forwarded (relaying : Relaying server) (routed : Routed server) {rest : List ReadOutcome}
    {line : List UInt8} (present : (server.loggedIn slot).fd ≠ 0)
    (connected : server.connection (server.loggedIn slot).fd = some conn)
    (finished : readLine bufferSize [] (server.inbox conn) = some (some line, rest))
    (fits : (nextLine (server.inbox conn)).length < bufferSize) :
    Relaying (forwardLine (consume server conn rest) slot line) := by
  have whole : line = nextLine (server.inbox conn) := by
    simpa using readLine_stores (by simpa using fits) finished
  have event : (forwardLine (consume server conn rest) slot line).events =
      [.forwarded (some conn) (server.connection (server.loggedIn slot).toFd.toNat) line] ++
        (consume server conn rest).events := by
    have same :
        (consume server conn rest).connection ((consume server conn rest).loggedIn slot).fd =
          some conn := connected
    simp only [forwardLine, Server.log, same]
    rfl
  refine relaying.read finished event rfl ?silent ?chosen ?others ?own
  case silent => simp [ServerEvent.sentBy, ServerEvent.takenFrom]
  case chosen =>
    intro sender target since before shape
    exact absurd (selection_singleton shape).1 (by simp)
  case others =>
    intro sender target different forwards _
    have apart : conn ≠ sender := Ne.symm different
    exact ⟨forwards, by simp [ServerEvent.writtenFor, apart]⟩
  case own =>
    intro target forwards _
    have arrives := (forwards.at_slot routed present connected).2
    have written : writtenLines conn target
        ([.forwarded (some conn) (server.connection (server.loggedIn slot).toFd.toNat) line] ++
          [.consumed conn (nextLine (server.inbox conn))]) = [line] := by
      simp [writtenLines, List.filterMap_cons, ServerEvent.writtenFor, arrives]
    refine ⟨forwards, ?_, ?_⟩
    · rw [written]
      simp [takenBytes, ServerEvent.takenFrom, whole]
    · rw [written, whole]
      simpa using newline_last _

theorem serveSlot (relaying : Relaying server) (routed : Routed server)
    {readable writable left : FdSet}
    (fits : ∀ conn, (server.loggedIn slot).fd ∈ readable → 0 < (server.loggedIn slot).toFd →
      (server.loggedIn slot).toFd.toNat ∈ writable →
      server.connection (server.loggedIn slot).fd = some conn →
      (nextLine (server.inbox conn)).length < bufferSize)
    (served : serveSlot server slot readable writable = some (next, left)) : Relaying next := by
  rcases serveSlot_cases (routed.stored slot) served with
    ⟨rfl, _⟩ | ⟨conn, line, rest, present, ready, connected, finished, turn⟩
  · exact relaying
  · cases turn with
    | removed => exact relaying.removed routed present connected finished
    | named name nameless => exact relaying.named routed present connected finished nameless name
    | selected buff _ awaiting =>
      exact relaying.selected routed present connected finished awaiting buff
    | forwarded _ forwarding wanted =>
      exact relaying.forwarded routed present connected finished
        (fits conn ready forwarding wanted connected)

theorem step (relaying : Relaying server) (routed : Routed server) {label : ServerLabel}
    (fitting : FittingLine server label) (taken : serverStep server label = some next) :
    Relaying next := by
  cases serverStep_cases taken with
  | received conn outcomes _ => exact relaying.receive conn outcomes
  | accepted peer _ fresh => exact (relaying.acceptPeer routed fresh).buildSets
  | interrupted _ => exact relaying.buildSets
  | timedOut _ _ _ => exact relaying.phase _
  | readied _ _ _ _ _ _ _ => exact relaying.phase _
  | served slot rest readable writable left next serving turn =>
    have fits : ∀ conn, (server.loggedIn slot).fd ∈ readable → 0 < (server.loggedIn slot).toFd →
        (server.loggedIn slot).toFd.toNat ∈ writable →
        server.connection (server.loggedIn slot).fd = some conn →
        (nextLine (server.inbox conn)).length < bufferSize := by
      intro conn ready forwarding wanted connected
      apply fitting rfl conn
      simp [forwardingConn, serving, ready, forwarding, wanted, connected]
    exact (relaying.serveSlot routed fits turn).phase _
  | allServed _ _ _ => exact relaying.phase _
  | prompted slot rest writable _ => exact (relaying.promptSlot slot writable).phase _
  | allPrompted _ _ => exact relaying.phase _

end Relaying

theorem relaying_initial (system : SystemDescriptors) : Relaying (initialServer system) where
  balanced _ := rfl
  kept sender target since before shape := by simp [initialServer] at shape

theorem relay_faithful (system : SystemDescriptors) (server : Server)
    (reached : Reaches serverStep FittingLine (initialServer system) server) : Relayed server := by
  have both : Routed server ∧ Relaying server := by
    refine reached.invariant (fun server => Routed server ∧ Relaying server)
      ⟨routed_initial system, relaying_initial system⟩ ?_
    intro state label next invariant fitting taken
    exact ⟨invariant.1.step taken, invariant.2.step invariant.1 fitting taken⟩
  exact both.2.relayed

theorem relay_faithful_afterLine :
    let server := arrival serverStep FittingLine (initialServer plainSystem)
      (lineRun (typed "hi\n"))
    server.events.head? = some (.forwarded (some 0) (some 1) [104, 105, 10]) ∧ Relayed server := by
  intro server
  refine ⟨by decide +kernel, ?_⟩
  exact relay_faithful plainSystem server (reaches_arrival _)

def longLine : List UInt8 := List.replicate 299 97 ++ [newline]

theorem relay_fails :
    clientReadLine clientBufferSize [] (longLine.map .byte) = some (some longLine, []) ∧
      ∃ server, Reachable serverStep (initialServer plainSystem) server ∧ ¬ Relayed server := by
  have plain : newline ∉ List.replicate 299 (97 : UInt8) := fun member =>
    absurd (List.eq_of_mem_replicate member) (by decide)
  have short : ([] : List UInt8).length + (List.replicate 299 (97 : UInt8)).length + 1 <
      clientBufferSize := by
    rw [List.length_replicate]
    decide
  refine ⟨clientReadLine_line plain short, ?_⟩
  have lost : ((run serverStep (initialServer plainSystem) (lineRun (longLine.map .byte))).map
      fun server =>
        let since := server.events.takeWhile (· ≠ .selected 0 1)
        let before := server.events.drop (since.length + 1)
        decide (server.events = since ++ .selected 0 1 :: before ∧ Undisturbed 0 1 since ∧
          (sentBytes 0 server.events).drop (takenBytes 0 before).length ≠
            (writtenLines 0 1 since).flatten ++ bytesOf (server.inbox 0))) = some true := by
    decide +kernel
  obtain ⟨server, ran, lost⟩ := Option.map_eq_some_iff.mp lost
  obtain ⟨shape, undisturbed, different⟩ := of_decide_eq_true lost
  refine ⟨server, reachable_of_run _ ran, ?_⟩
  intro relayed
  exact different (relayed 0 1 _ _ shape undisturbed).1

end Akiso.Minitalk
