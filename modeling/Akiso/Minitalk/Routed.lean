import Akiso.Minitalk.Server

set_option autoImplicit false

namespace Akiso.Minitalk

def Selectable (loggedIn : Slot → User) (toFd : Int) : Prop :=
  toFd = fdUnassigned ∨ toFd = fdAwaiting ∨ ∃ target, (loggedIn target).fd ≠ 0 ∧
    (loggedIn target).name ≠ none ∧ toFd = (loggedIn target).fd

structure SlotsSafe (loggedIn : Slot → User) : Prop where
  blank : ∀ slot, (loggedIn slot).fd = 0 →
    (loggedIn slot).name = none ∧ (loggedIn slot).toFd = fdUnassigned
  distinct : ∀ first second, first ≠ second → (loggedIn first).fd ≠ 0 →
    (loggedIn second).fd ≠ 0 → (loggedIn first).fd ≠ (loggedIn second).fd
  targets : ∀ slot, Selectable loggedIn (loggedIn slot).toFd

def ServerEvent.disturbs (sender target : ConnId) : ServerEvent → Bool
  | .selected other _ => other = sender
  | .closed conn => conn = sender || conn = target
  | _ => false

def Undisturbed (sender target : ConnId) (since : List ServerEvent) : Prop :=
  ∀ event ∈ since, event.disturbs sender target = false

instance (sender target : ConnId) (since : List ServerEvent) :
    Decidable (Undisturbed sender target since) :=
  inferInstanceAs (Decidable (∀ event ∈ since, event.disturbs sender target = false))

def LastSelected (sender target : ConnId) (events : List ServerEvent) : Prop :=
  ∃ since before, events = since ++ .selected sender target :: before ∧
    Undisturbed sender target since

def Delivered (events : List ServerEvent) : Prop :=
  ∀ newer older sender target bytes, events = newer ++ .forwarded sender target bytes :: older →
    ∃ source receiver, sender = some source ∧ target = some receiver ∧
      LastSelected source receiver older

def ServerEvent.calm : ServerEvent → Bool
  | .selected _ _ => false
  | .forwarded _ _ _ => false
  | .closed _ => false
  | _ => true

theorem Selectable.mono {before after : Slot → User} {toFd : Int}
    (selectable : Selectable before toFd)
    (kept : ∀ slot, (before slot).fd ≠ 0 → (before slot).name ≠ none →
      (after slot).fd = (before slot).fd ∧ (after slot).name ≠ none) : Selectable after toFd := by
  rcases selectable with unassigned | awaiting | ⟨target, present, named, chosen⟩
  · exact .inl unassigned
  · exact .inr (.inl awaiting)
  · obtain ⟨fd, name⟩ := kept target present named
    exact .inr (.inr ⟨target, fd ▸ present, name, fd ▸ chosen⟩)

variable {sender target : ConnId} {events added : List ServerEvent}

theorem calm_undisturbed {event : ServerEvent} (calm : event.calm = true) :
    event.disturbs sender target = false := by
  cases event <;> simp_all [ServerEvent.calm, ServerEvent.disturbs]

theorem LastSelected.now (sender target : ConnId) (events : List ServerEvent) :
    LastSelected sender target (.selected sender target :: events) :=
  ⟨[], events, rfl, by simp [Undisturbed]⟩

theorem LastSelected.append (selected : LastSelected sender target events)
    (undisturbed : Undisturbed sender target added) :
    LastSelected sender target (added ++ events) := by
  obtain ⟨since, before, shape, earlier⟩ := selected
  refine ⟨added ++ since, before, by simp [shape], ?_⟩
  intro event member
  rcases List.mem_append.mp member with new | old
  · exact undisturbed event new
  · exact earlier event old

theorem LastSelected.cons {event : ServerEvent} (selected : LastSelected sender target events)
    (undisturbed : event.disturbs sender target = false) :
    LastSelected sender target (event :: events) :=
  by
  have single : Undisturbed sender target [event] := by simpa [Undisturbed] using undisturbed
  exact selected.append single

theorem Delivered.cons {event : ServerEvent} (delivered : Delivered events)
    (routed : ∀ sender target bytes, event = .forwarded sender target bytes →
      ∃ source receiver, sender = some source ∧ target = some receiver ∧
        LastSelected source receiver events) : Delivered (event :: events) := by
  intro newer older sender target bytes shape
  cases newer with
  | nil =>
    simp only [List.nil_append, List.cons.injEq] at shape
    exact shape.2 ▸ routed sender target bytes shape.1
  | cons head rest =>
    simp only [List.cons_append, List.cons.injEq] at shape
    exact delivered rest older sender target bytes shape.2

theorem Delivered.append (delivered : Delivered events)
    (calm : ∀ event ∈ added, event.calm = true) : Delivered (added ++ events) := by
  induction added with
  | nil => exact delivered
  | cons event rest ih =>
    apply (ih fun event member => calm event (List.mem_cons_of_mem _ member)).cons
    intro sender target bytes same
    have head := calm event List.mem_cons_self
    simp [same, ServerEvent.calm] at head

structure Routed (server : Server) : Prop extends SlotsSafe server.loggedIn where
  nameless : ∀ slot, (server.loggedIn slot).name = none →
    (server.loggedIn slot).toFd = fdUnassigned
  zero : server.descriptors 0 = some .system
  stored : ∀ slot, (server.loggedIn slot).fd ≠ 0 →
    ∃ conn, server.connection (server.loggedIn slot).fd = some conn
  numbered : ∀ fd conn, server.connection fd = some conn → conn < server.nextConn
  apart : ∀ fd other conn, server.connection fd = some conn →
    server.connection other = some conn → fd = other
  routes : ∀ slot, 0 < (server.loggedIn slot).toFd → ∃ sender target,
    server.connection (server.loggedIn slot).fd = some sender ∧
      server.connection (server.loggedIn slot).toFd.toNat = some target ∧
      LastSelected sender target server.events
  delivered : Delivered server.events

variable {server next : Server} {slot other : Slot}

theorem connection_eq_some {fd : Nat} {conn : ConnId} :
    server.connection fd = some conn ↔ server.descriptors fd = some (.connection conn) := by
  unfold Server.connection
  split
  next other owner => simp [owner]
  next none => simpa using none conn

@[simp] theorem removeUser_self : (removeUser server slot).loggedIn slot = noUser := by
  simp [removeUser]

theorem removeUser_other (different : other ≠ slot) :
    (removeUser server slot).loggedIn other =
      { server.loggedIn other with
        toFd := if (server.loggedIn other).toFd = (server.loggedIn slot).fd then fdUnassigned
          else (server.loggedIn other).toFd } := by
  simp only [removeUser, Function.update_of_ne different]
  split
  next => rfl
  next => rfl

theorem removeUser_connection (fd : Nat) :
    (removeUser server slot).connection fd =
      if fd = (server.loggedIn slot).fd then none else server.connection fd := by
  unfold Server.connection removeUser
  by_cases same : fd = (server.loggedIn slot).fd
  next => simp [same]
  next => simp [same]

theorem openConnection_connection (server : Server) (peer fd : Nat) :
    (openConnection server peer).connection fd =
      if fd = peer then some server.nextConn else server.connection fd := by
  unfold Server.connection openConnection
  by_cases same : fd = peer
  next => simp [same]
  next => simp [same]

theorem openConnection_still {peer fd : Nat} {conn : ConnId}
    (fresh : server.descriptors peer = none) (found : server.connection fd = some conn) :
    (openConnection server peer).connection fd = some conn := by
  have different : fd ≠ peer := by
    intro same
    rw [connection_eq_some, same, fresh] at found
    cases found
  rwa [openConnection_connection, if_neg different]

theorem SlotsSafe.removeUser (safe : SlotsSafe server.loggedIn) (slot : Slot) :
    SlotsSafe (removeUser server slot).loggedIn := by
  have fds : ∀ other, other ≠ slot →
      ((Minitalk.removeUser server slot).loggedIn other).fd = (server.loggedIn other).fd := by
    intro other different
    rw [removeUser_other different]
  constructor
  case blank =>
    intro other absent
    by_cases same : other = slot
    · simp [same, noUser]
    · rw [fds other same] at absent
      rw [removeUser_other same]
      have blank := safe.blank other absent
      simp [blank.1, blank.2]
  case distinct =>
    intro first second different here there
    by_cases atFirst : first = slot
    · simp [atFirst, noUser] at here
    by_cases atSecond : second = slot
    · simp [atSecond, noUser] at there
    rw [fds first atFirst] at here ⊢
    rw [fds second atSecond] at there ⊢
    exact safe.distinct first second different here there
  case targets =>
    intro other
    by_cases same : other = slot
    · rw [same, removeUser_self]
      exact .inl rfl
    rw [removeUser_other same]
    by_cases reset : (server.loggedIn other).toFd = (server.loggedIn slot).fd
    · simp only [reset, if_true]
      exact .inl rfl
    simp only [reset, if_false]
    rcases safe.targets other with unassigned | awaiting | ⟨target, here, named, chosen⟩
    · exact .inl unassigned
    · exact .inr (.inl awaiting)
    · have kept : target ≠ slot := by
        intro same
        exact reset (same ▸ chosen)
      refine .inr (.inr ⟨target, ?_, ?_, ?_⟩)
      · rwa [fds target kept]
      · rwa [removeUser_other kept]
      · rwa [fds target kept]

namespace Routed

theorem sameSlot (routed : Routed server) (present : (server.loggedIn slot).fd ≠ 0)
    (same : (server.loggedIn other).fd = (server.loggedIn slot).fd) : other = slot := by
  by_contra different
  exact routed.distinct other slot different (same ▸ present) present same

theorem fd_ne_zero (routed : Routed server)
    (assigned : (server.loggedIn slot).toFd ≠ fdUnassigned) :
    (server.loggedIn slot).fd ≠ 0 := fun gone => assigned (routed.blank slot gone).2

theorem keep (routed : Routed server) (descriptors : next.descriptors = server.descriptors)
    (nextConn : next.nextConn = server.nextConn)
    (fds : ∀ slot, (next.loggedIn slot).fd = (server.loggedIn slot).fd)
    (names : ∀ slot, (server.loggedIn slot).name ≠ none → (next.loggedIn slot).name ≠ none)
    (blank : ∀ slot, (next.loggedIn slot).fd = 0 → (next.loggedIn slot).name = none)
    (nameless : ∀ slot, (next.loggedIn slot).name = none →
      (next.loggedIn slot).toFd = fdUnassigned)
    (toFds : ∀ slot, (next.loggedIn slot).toFd = (server.loggedIn slot).toFd ∨
      (next.loggedIn slot).toFd = fdAwaiting)
    (events : next.events = added ++ server.events) (calm : ∀ event ∈ added, event.calm = true) :
    Routed next := by
  have connections : ∀ fd, next.connection fd = server.connection fd := by
    intro fd
    simp only [Server.connection, descriptors]
  constructor
  case toSlotsSafe =>
    constructor
    case blank => exact fun slot gone => ⟨blank slot gone, nameless slot (blank slot gone)⟩
    case distinct =>
      intro first second
      rw [fds first, fds second]
      exact routed.distinct first second
    case targets =>
      intro slot
      rcases toFds slot with same | awaiting
      · rw [same]
        exact (routed.targets slot).mono fun target _ named => ⟨fds target, names target named⟩
      · exact .inr (.inl awaiting)
  case nameless => exact nameless
  case zero =>
    rw [descriptors]
    exact routed.zero
  case stored =>
    intro slot present
    rw [fds] at present ⊢
    rw [connections]
    exact routed.stored slot present
  case numbered =>
    intro fd conn found
    rw [connections] at found
    rw [nextConn]
    exact routed.numbered fd conn found
  case apart =>
    intro fd other conn first second
    rw [connections] at first second
    exact routed.apart fd other conn first second
  case routes =>
    intro slot forwarding
    rcases toFds slot with same | awaiting
    · rw [same] at forwarding ⊢
      obtain ⟨sender, target, leaves, arrives, selected⟩ := routed.routes slot forwarding
      rw [fds, connections, connections, events]
      have undisturbed := selected.append fun event member => calm_undisturbed (calm event member)
      exact ⟨sender, target, leaves, arrives, undisturbed⟩
    · rw [awaiting] at forwarding
      simp [fdAwaiting] at forwarding
  case delivered =>
    rw [events]
    exact routed.delivered.append calm

theorem removeUser (routed : Routed server) (present : (server.loggedIn slot).fd ≠ 0) :
    Routed (removeUser server slot) := by
  obtain ⟨gone, connected⟩ := routed.stored slot present
  have events : (Minitalk.removeUser server slot).events = .closed gone :: server.events := by
    simp [Minitalk.removeUser, connected]
  have fds : ∀ other, other ≠ slot →
      ((Minitalk.removeUser server slot).loggedIn other).fd = (server.loggedIn other).fd := by
    intro other different
    rw [removeUser_other different]
  have still : ∀ other, other ≠ slot → (server.loggedIn other).fd ≠ 0 →
      (server.loggedIn other).fd ≠ (server.loggedIn slot).fd := fun other different here =>
    routed.distinct other slot different here present
  constructor
  case toSlotsSafe => exact routed.toSlotsSafe.removeUser slot
  case nameless =>
    intro other nameless
    by_cases same : other = slot
    · simp [same, noUser]
    rw [removeUser_other same] at nameless ⊢
    simp [routed.nameless other nameless]
  case zero =>
    have other : (0 : Nat) ≠ (server.loggedIn slot).fd := Ne.symm present
    simpa [Minitalk.removeUser, Function.update_of_ne other] using routed.zero
  case stored =>
    intro other here
    by_cases same : other = slot
    · simp [same, noUser] at here
    rw [fds other same] at here ⊢
    rw [removeUser_connection, if_neg (still other same here)]
    exact routed.stored other here
  case numbered =>
    intro fd conn found
    rw [removeUser_connection] at found
    split at found
    next => simp at found
    next => exact routed.numbered fd conn found
  case apart =>
    intro fd other conn first second
    rw [removeUser_connection] at first second
    split at first
    next => simp at first
    next =>
      split at second
      next => simp at second
      next => exact routed.apart fd other conn first second
  case routes =>
    intro other forwarding
    by_cases same : other = slot
    · simp [same, noUser, fdUnassigned] at forwarding
    rw [removeUser_other same] at forwarding ⊢
    by_cases reset : (server.loggedIn other).toFd = (server.loggedIn slot).fd
    · simp [reset, fdUnassigned] at forwarding
    simp only [reset, if_false] at forwarding ⊢
    obtain ⟨sender, target, leaves, arrives, selected⟩ := routed.routes other forwarding
    have here : (server.loggedIn other).fd ≠ 0 :=
      routed.fd_ne_zero (by simp only [fdUnassigned]; omega)
    have apart : (server.loggedIn other).toFd.toNat ≠ (server.loggedIn slot).fd := by omega
    rw [removeUser_connection, removeUser_connection, if_neg (still other same here),
      if_neg apart, events]
    have sender_open : gone ≠ sender := fun closed =>
      still other same here (routed.apart _ _ _ leaves (closed ▸ connected))
    have target_open : gone ≠ target := fun closed =>
      apart (routed.apart _ _ _ arrives (closed ▸ connected))
    refine ⟨sender, target, leaves, arrives, selected.cons ?_⟩
    simp [ServerEvent.disturbs, sender_open, target_open]
  case delivered =>
    rw [events]
    exact routed.delivered.cons (by simp)

theorem quiet (routed : Routed server) (loggedIn : next.loggedIn = server.loggedIn)
    (descriptors : next.descriptors = server.descriptors)
    (nextConn : next.nextConn = server.nextConn) (events : next.events = added ++ server.events)
    (calm : ∀ event ∈ added, event.calm = true) : Routed next := by
  refine routed.keep descriptors nextConn ?_ ?_ ?_ ?_ ?_ events calm
  · simp [loggedIn]
  · simp [loggedIn]
  · rw [loggedIn]
    exact fun slot gone => (routed.blank slot gone).1
  · rw [loggedIn]
    exact routed.nameless
  · simp [loggedIn]

theorem phase (routed : Routed server) (phase : Phase) : Routed { server with phase := phase } :=
  routed.quiet rfl rfl rfl (List.nil_append _).symm (by simp)

theorem consume (routed : Routed server) (conn : ConnId) (rest : List ReadOutcome) :
    Routed (consume server conn rest) := by
  have calm : ∀ bytes, ∀ event ∈ [ServerEvent.consumed conn bytes], event.calm = true := by
    simp [ServerEvent.calm]
  exact routed.quiet rfl rfl rfl rfl (calm _)

theorem receive (routed : Routed server) (conn : ConnId) (outcomes : List ReadOutcome) :
    Routed (receive server conn outcomes) := by
  refine routed.quiet rfl rfl rfl rfl ?_
  intro event member
  simp only [List.mem_reverse, List.mem_map] at member
  obtain ⟨outcome, _, same⟩ := member
  simp [← same, ServerEvent.calm]

end Routed

end Akiso.Minitalk
