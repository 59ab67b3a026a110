import Akiso.Minitalk.Routed

set_option autoImplicit false

namespace Akiso.Minitalk

open Transition

variable {sender target : ConnId} {server next : Server} {slot other : Slot}

theorem sameUsers_of_toFd {toFd : Int}
    (own : next.loggedIn slot = { server.loggedIn slot with toFd })
    (others : ∀ other, other ≠ slot → next.loggedIn other = server.loggedIn other)
    (other : Slot) :
    (next.loggedIn other).fd = (server.loggedIn other).fd ∧
      (next.loggedIn other).name = (server.loggedIn other).name := by
  by_cases same : other = slot
  · simp [same, own]
  · simp [others other same]

theorem SlotsSafe.choose (safe : SlotsSafe server.loggedIn) {chosen : Slot}
    (present : (server.loggedIn slot).fd ≠ 0) (there : (server.loggedIn chosen).fd ≠ 0)
    (named : (server.loggedIn chosen).name ≠ none)
    (own : next.loggedIn slot =
      { server.loggedIn slot with toFd := (server.loggedIn chosen).fd })
    (others : ∀ other, other ≠ slot → next.loggedIn other = server.loggedIn other) :
    SlotsSafe next.loggedIn := by
  have same_user := sameUsers_of_toFd own others
  constructor
  case blank =>
    intro other absent
    have different : other ≠ slot := by
      intro same
      rw [(same_user other).1, same] at absent
      exact present absent
    rw [others other different] at absent ⊢
    exact safe.blank other absent
  case distinct =>
    intro first second
    rw [(same_user first).1, (same_user second).1]
    exact safe.distinct first second
  case targets =>
    have kept : ∀ target, (server.loggedIn target).fd ≠ 0 →
        (server.loggedIn target).name ≠ none →
        (next.loggedIn target).fd = (server.loggedIn target).fd ∧
          (next.loggedIn target).name ≠ none :=
      fun target _ named => ⟨(same_user target).1, (same_user target).2 ▸ named⟩
    intro other
    by_cases same : other = slot
    · rw [same, own]
      have selectable : Selectable server.loggedIn (server.loggedIn chosen).fd :=
        .inr (.inr ⟨chosen, there, named, rfl⟩)
      exact selectable.mono kept
    · rw [others other same]
      exact (safe.targets other).mono kept

theorem SlotsSafe.seat (safe : SlotsSafe server.loggedIn) {peer : Nat}
    (free : (server.loggedIn slot).fd = 0) (present : peer ≠ 0)
    (unheld : ∀ other, (server.loggedIn other).fd ≠ peer) :
    SlotsSafe (server.setUser slot { server.loggedIn slot with fd := peer }).loggedIn := by
  have others : ∀ other, other ≠ slot → (server.setUser slot { server.loggedIn slot with
      fd := peer }).loggedIn other = server.loggedIn other :=
    fun other different => server.setUser_other _ different
  constructor
  case blank =>
    intro other absent
    by_cases same : other = slot
    · subst same
      rw [server.setUser_self] at absent
      exact absurd absent present
    · rw [others other same] at absent ⊢
      exact safe.blank other absent
  case distinct =>
    intro first second different here there
    by_cases atFirst : first = slot
    · subst atFirst
      rw [server.setUser_self, others second (Ne.symm different)]
      exact Ne.symm (unheld second)
    by_cases atSecond : second = slot
    · subst atSecond
      rw [server.setUser_self, others first atFirst]
      exact unheld first
    rw [others first atFirst] at here ⊢
    rw [others second atSecond] at there ⊢
    exact safe.distinct first second different here there
  case targets =>
    have kept : ∀ target, (server.loggedIn target).fd ≠ 0 → (server.loggedIn target).name ≠ none →
        ((server.setUser slot { server.loggedIn slot with fd := peer }).loggedIn target).fd =
            (server.loggedIn target).fd ∧
        ((server.setUser slot { server.loggedIn slot with fd := peer }).loggedIn target).name ≠
            none := by
      intro target here named
      have different : target ≠ slot := by
        intro same
        exact here (same ▸ free)
      rw [others target different]
      exact ⟨rfl, named⟩
    intro other
    by_cases same : other = slot
    · subst same
      rw [server.setUser_self]
      exact .inl (safe.blank other free).2
    · rw [others other same]
      exact (safe.targets other).mono kept

namespace Routed

theorem setName (routed : Routed server) (present : (server.loggedIn slot).fd ≠ 0)
    (name : List UInt8) :
    Routed (server.setUser slot { server.loggedIn slot with name := some name }) := by
  have fds : ∀ other, ((server.setUser slot { server.loggedIn slot with name := some name }
      ).loggedIn other).fd = (server.loggedIn other).fd := by
    intro other
    by_cases same : other = slot
    · simp [same]
    · simp [server.setUser_other _ same]
  refine routed.keep rfl rfl fds ?names ?blank ?nameless ?toFds (List.nil_append _).symm (by simp)
  case names =>
    intro other named
    by_cases same : other = slot
    · simp [same]
    · rwa [server.setUser_other _ same]
  case blank =>
    intro other absent
    have different : other ≠ slot := by
      intro same
      rw [fds, same] at absent
      exact present absent
    rw [server.setUser_other _ different] at absent ⊢
    exact (routed.blank other absent).1
  case nameless =>
    intro other nameless
    have different : other ≠ slot := by
      intro same
      simp [same] at nameless
    rw [server.setUser_other _ different] at nameless ⊢
    exact routed.nameless other nameless
  case toFds =>
    intro other
    by_cases same : other = slot
    · simp [same]
    · simp [server.setUser_other _ same]

theorem forwardLine (routed : Routed server) (forwarding : 0 < (server.loggedIn slot).toFd)
    (buff : List UInt8) : Routed (forwardLine server slot buff) := by
  obtain ⟨sender, target, leaves, arrives, selected⟩ := routed.routes slot forwarding
  constructor
  case toSlotsSafe => exact routed.toSlotsSafe
  case nameless => exact routed.nameless
  case zero => exact routed.zero
  case stored => exact routed.stored
  case numbered => exact routed.numbered
  case apart => exact routed.apart
  case routes =>
    intro other forwarding
    obtain ⟨sender, target, leaves, arrives, selected⟩ := routed.routes other forwarding
    exact ⟨sender, target, leaves, arrives, selected.cons rfl⟩
  case delivered =>
    apply routed.delivered.cons
    intro source receiver bytes same
    simp only [ServerEvent.forwarded.injEq] at same
    exact ⟨sender, target, same.1 ▸ leaves, same.2.1 ▸ arrives, selected⟩

theorem choose (routed : Routed server) {chosen : Slot} (present : (server.loggedIn slot).fd ≠ 0)
    (known : (server.loggedIn slot).name ≠ none) (there : (server.loggedIn chosen).fd ≠ 0)
    (named : (server.loggedIn chosen).name ≠ none)
    (leaves : server.connection (server.loggedIn slot).fd = some sender)
    (arrives : server.connection (server.loggedIn chosen).fd = some target)
    (own : next.loggedIn slot =
      { server.loggedIn slot with toFd := (server.loggedIn chosen).fd })
    (others : ∀ other, other ≠ slot → next.loggedIn other = server.loggedIn other)
    (descriptors : next.descriptors = server.descriptors)
    (nextConn : next.nextConn = server.nextConn)
    (events : next.events = .selected sender target :: server.events) : Routed next := by
  have same_user := sameUsers_of_toFd own others
  have connections : ∀ fd, next.connection fd = server.connection fd := by
    intro fd
    simp only [Server.connection, descriptors]
  constructor
  case toSlotsSafe =>
    exact routed.toSlotsSafe.choose present there named own others
  case nameless =>
    intro other nameless
    have different : other ≠ slot := by
      intro same
      rw [(same_user other).2, same] at nameless
      exact known nameless
    rw [others other different] at nameless ⊢
    exact routed.nameless other nameless
  case zero =>
    rw [descriptors]
    exact routed.zero
  case stored =>
    intro other
    rw [(same_user other).1, connections]
    exact routed.stored other
  case numbered =>
    intro fd conn found
    rw [connections] at found
    rw [nextConn]
    exact routed.numbered fd conn found
  case apart =>
    intro fd other conn first second
    rw [connections] at first second
    exact routed.apart fd other conn first second
  case routes =>
    intro other forwarding
    by_cases same : other = slot
    · rw [same, own, connections, connections, events]
      exact ⟨sender, target, leaves, arrives, .now sender target _⟩
    · rw [others other same] at forwarding ⊢
      obtain ⟨source, receiver, departs, reaches, selected⟩ := routed.routes other forwarding
      have unrevised : sender ≠ source := fun revised =>
        same (routed.sameSlot present (routed.apart _ _ _ departs (revised ▸ leaves)))
      rw [connections, connections, events]
      refine ⟨source, receiver, departs, reaches, selected.cons ?_⟩
      simp [ServerEvent.disturbs, unrevised]
  case delivered =>
    rw [events]
    exact routed.delivered.cons (by simp)

theorem selectTarget_cases (routed : Routed server) (present : (server.loggedIn slot).fd ≠ 0)
    (buff : List UInt8) : Minitalk.selectTarget server slot buff = Minitalk.removeUser server slot ∨
      ∃ newTo sender receiver, (server.loggedIn newTo).fd ≠ 0 ∧
        (server.loggedIn newTo).name ≠ none ∧
        server.connection (server.loggedIn slot).fd = some sender ∧
        server.connection (server.loggedIn newTo).fd = some receiver ∧
        Minitalk.selectTarget server slot buff = (server.setUser slot { server.loggedIn slot with
          toFd := (server.loggedIn newTo).fd }).log (.selected sender receiver) := by
  unfold Minitalk.selectTarget
  split
  next => exact .inl rfl
  next newTo _ =>
    dsimp only
    split
    next => exact .inl rfl
    next found =>
      obtain ⟨there, named⟩ := not_or.mp found
      obtain ⟨sender, leaves⟩ := routed.stored slot present
      obtain ⟨receiver, arrives⟩ := routed.stored newTo there
      refine .inr ⟨newTo, sender, receiver, there, named, leaves, arrives, ?_⟩
      simp only [leaves, arrives]

theorem selectTarget (routed : Routed server) (present : (server.loggedIn slot).fd ≠ 0)
    (known : (server.loggedIn slot).name ≠ none) (buff : List UInt8) :
    Routed (selectTarget server slot buff) := by
  rcases routed.selectTarget_cases present buff with
    removed | ⟨newTo, sender, receiver, there, named, leaves, arrives, selected⟩
  · rw [removed]
    exact routed.removeUser present
  · rw [selected]
    exact routed.choose present known there named leaves arrives (server.setUser_self slot _)
      (fun other different => server.setUser_other _ different) rfl rfl rfl

theorem opened (routed : Routed server) {peer : Nat} (fresh : server.descriptors peer = none) :
    Routed (openConnection server peer) := by
  have connections := openConnection_connection server peer
  constructor
  case toSlotsSafe => exact routed.toSlotsSafe
  case nameless => exact routed.nameless
  case zero =>
    have other : 0 ≠ peer := by
      intro same
      rw [← same, routed.zero] at fresh
      cases fresh
    simpa [openConnection, Function.update_of_ne other] using routed.zero
  case stored =>
    intro slot present
    obtain ⟨conn, found⟩ := routed.stored slot present
    exact ⟨conn, openConnection_still fresh found⟩
  case numbered =>
    intro fd conn found
    rw [connections] at found
    split at found
    next =>
      cases found
      exact Nat.lt_succ_self _
    next => exact Nat.lt_succ_of_lt (routed.numbered fd conn found)
  case apart =>
    intro fd other conn first second
    rw [connections] at first second
    split at first
    next here =>
      split at second
      next there => rw [here, there]
      next =>
        cases first
        exact absurd (routed.numbered other _ second) (Nat.lt_irrefl _)
    next =>
      split at second
      next =>
        cases second
        exact absurd (routed.numbered fd _ first) (Nat.lt_irrefl _)
      next => exact routed.apart fd other conn first second
  case routes =>
    intro slot forwarding
    obtain ⟨sender, target, leaves, arrives, selected⟩ := routed.routes slot forwarding
    exact ⟨sender, target, openConnection_still fresh leaves, openConnection_still fresh arrives,
      selected⟩
  case delivered => exact routed.delivered

theorem seat (routed : Routed server) {peer : Nat} (free : (server.loggedIn slot).fd = 0)
    (connected : ∃ conn, server.connection peer = some conn)
    (unheld : ∀ other, (server.loggedIn other).fd ≠ peer) :
    Routed (server.setUser slot { server.loggedIn slot with fd := peer }) := by
  obtain ⟨nameless, unassigned⟩ := routed.blank slot free
  have present : peer ≠ 0 := by
    intro same
    obtain ⟨conn, connected⟩ := connected
    rw [connection_eq_some, same, routed.zero] at connected
    cases connected
  have others : ∀ other, other ≠ slot → (server.setUser slot { server.loggedIn slot with
      fd := peer }).loggedIn other = server.loggedIn other :=
    fun other different => server.setUser_other _ different
  constructor
  case toSlotsSafe => exact routed.toSlotsSafe.seat free present unheld
  case nameless =>
    intro other nameless
    by_cases same : other = slot
    · subst same
      rw [server.setUser_self]
      exact unassigned
    · rw [others other same] at nameless ⊢
      exact routed.nameless other nameless
  case zero => exact routed.zero
  case stored =>
    intro other here
    by_cases same : other = slot
    · subst same
      rw [server.setUser_self]
      exact connected
    · rw [others other same] at here ⊢
      exact routed.stored other here
  case numbered => exact routed.numbered
  case apart => exact routed.apart
  case routes =>
    intro other forwarding
    by_cases same : other = slot
    · subst same
      rw [server.setUser_self] at forwarding
      simp [unassigned, fdUnassigned] at forwarding
    · rw [others other same] at forwarding ⊢
      exact routed.routes other forwarding
  case delivered => exact routed.delivered

theorem unheld (routed : Routed server) {peer : Nat} (fresh : server.descriptors peer = none)
    (slot : Slot) : (server.loggedIn slot).fd ≠ peer := by
  intro same
  have present : (server.loggedIn slot).fd ≠ 0 := by
    intro gone
    rw [← same, gone, routed.zero] at fresh
    cases fresh
  obtain ⟨conn, connected⟩ := routed.stored slot present
  rw [connection_eq_some, same, fresh] at connected
  cases connected

theorem acceptPeer (routed : Routed server) {peer : Nat} (fresh : server.descriptors peer = none) :
    Routed (acceptPeer server peer) := by
  have opened := routed.opened fresh
  have logged : ∀ {server : Server} (conn : ConnId) (stored : Bool), Routed server →
      Routed (server.log (.accepted conn stored)) := by
    intro server conn stored routed
    have calm : ∀ event ∈ [ServerEvent.accepted conn stored], event.calm = true := by
      simp [ServerEvent.calm]
    exact routed.quiet rfl rfl rfl rfl calm
  rcases acceptPeer_cases server peer with ⟨slot, free, stored⟩ | ⟨_, dropped⟩
  · rw [stored]
    apply logged
    refine opened.seat free ⟨server.nextConn, ?_⟩ (routed.unheld fresh)
    rw [openConnection_connection, if_pos rfl]
  · rw [dropped]
    exact logged _ _ opened

theorem buildSets (routed : Routed server) : Routed (buildSets server) := by
  have same : ∀ user, (awaitSelection user).fd = user.fd ∧
      (awaitSelection user).name = user.name ∧
      ((awaitSelection user).toFd = user.toFd ∨ (awaitSelection user).toFd = fdAwaiting) ∧
      (user.name = none → (awaitSelection user).toFd = user.toFd) := by
    intro user
    unfold awaitSelection
    split
    next awaiting => exact ⟨rfl, rfl, .inr rfl, fun nameless => absurd nameless awaiting.2.1⟩
    next => exact ⟨rfl, rfl, .inl rfl, fun _ => rfl⟩
  refine routed.keep rfl rfl (fun slot => (same _).1) ?names ?blank ?nameless
    (fun slot => (same _).2.2.1) (List.nil_append _).symm (by simp)
  case names =>
    intro slot named
    simp only [Minitalk.buildSets, (same _).2.1]
    exact named
  case blank =>
    intro slot absent
    simp only [Minitalk.buildSets, (same _).1, (same _).2.1] at absent ⊢
    exact (routed.blank slot absent).1
  case nameless =>
    intro slot nameless
    simp only [Minitalk.buildSets, (same _).2.1] at nameless ⊢
    rw [(same _).2.2.2 nameless]
    exact routed.nameless slot nameless

theorem serveSlot (routed : Routed server) {readable writable left : FdSet}
    (served : serveSlot server slot readable writable = some (next, left)) : Routed next := by
  rcases serveSlot_cases (routed.stored slot) served with
    ⟨rfl, _⟩ | ⟨conn, line, rest, present, _, _, _, turn⟩
  · exact routed
  · have consumed := routed.consume conn rest
    cases turn with
    | removed => exact consumed.removeUser present
    | named name _ => exact consumed.setName present name
    | selected buff named _ => exact consumed.selectTarget present named buff
    | forwarded named forwarding _ => exact consumed.forwardLine forwarding _

theorem promptSlot (routed : Routed server) (slot : Slot) (writable : FdSet) :
    Routed (promptSlot server slot writable) := by
  rcases promptSlot_cases server slot writable with silent | prompted
  · rw [silent]
    exact routed
  · have calm : ∀ event ∈ [ServerEvent.prompted (server.connection (server.loggedIn slot).fd)
        (promptEntries server slot)], event.calm = true := by
      simp [ServerEvent.calm]
    rw [prompted]
    exact routed.quiet rfl rfl rfl rfl calm

theorem step (routed : Routed server) {label : ServerLabel}
    (taken : serverStep server label = some next) : Routed next := by
  cases serverStep_cases taken with
  | received conn outcomes _ => exact routed.receive conn outcomes
  | accepted peer _ fresh => exact (routed.acceptPeer fresh).buildSets
  | interrupted _ => exact routed.buildSets
  | timedOut _ _ _ => exact routed.phase _
  | readied _ _ _ _ _ _ _ => exact routed.phase _
  | served slot rest readable writable left next _ turn => exact (routed.serveSlot turn).phase _
  | allServed _ _ _ => exact routed.phase _
  | prompted slot rest writable _ => exact (routed.promptSlot slot writable).phase _
  | allPrompted _ _ => exact routed.phase _

end Routed

theorem routed_initial (system : SystemDescriptors) : Routed (initialServer system) := by
  have unconnected : ∀ fd, (initialServer system).connection fd = none := by
    intro fd
    unfold Server.connection initialServer
    dsimp only
    cases system.isOpen fd with
    | true => rfl
    | false => rfl
  constructor
  case toSlotsSafe => exact ⟨fun _ _ => ⟨rfl, rfl⟩, by simp [initialServer, noUser],
    fun _ => .inl rfl⟩
  case nameless => exact fun _ _ => rfl
  case zero => simp [initialServer, system.zero]
  case stored => simp [initialServer, noUser]
  case numbered =>
    intro fd conn found
    simp [unconnected] at found
  case apart =>
    intro fd other conn found
    simp [unconnected] at found
  case routes => simp [initialServer, noUser, fdUnassigned]
  case delivered => simp [Delivered, initialServer]

theorem routed_reachable {system : SystemDescriptors}
    (reached : Reachable serverStep (initialServer system) server) : Routed server :=
  reached.invariant Routed (routed_initial system) fun _ _ _ routed _ taken => routed.step taken

theorem routing_safe (system : SystemDescriptors) (server : Server)
    (reached : Reachable serverStep (initialServer system) server) :
    SlotsSafe server.loggedIn ∧ Delivered server.events :=
  ⟨(routed_reachable reached).toSlotsSafe, (routed_reachable reached).delivered⟩

def plainSystem : SystemDescriptors := { isOpen := fun fd => fd < 4, zero := rfl }

def wholeScan : List ServerLabel := List.replicate 17 .serve ++ List.replicate 17 .prompt

def typed (text : String) : List ReadOutcome := text.toUTF8.toList.map .byte

def selectionRun : List ServerLabel :=
  [.accept 4, .arrive 0 (typed "ann\n"), .ready [4] []] ++ wholeScan ++
    [.accept 5, .arrive 1 (typed "bob\n"), .ready [5] []] ++ wholeScan ++
    [.interrupted, .arrive 0 (typed "1\n"), .ready [4] []] ++ wholeScan

def lineRun (line : List ReadOutcome) : List ServerLabel :=
  selectionRun ++ [.interrupted, .arrive 0 line, .ready [4] [5], .serve]

theorem routing_safe_afterLine :
    let server := arrival serverStep (fun _ _ => True) (initialServer plainSystem)
      (lineRun (typed "hi\n"))
    server.events.head? = some (.forwarded (some 0) (some 1) [104, 105, 10]) ∧
      SlotsSafe server.loggedIn ∧ Delivered server.events := by
  intro server
  refine ⟨by decide +kernel, ?_⟩
  exact routing_safe plainSystem server (reaches_arrival _)

end Akiso.Minitalk
