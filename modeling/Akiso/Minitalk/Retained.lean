import Akiso.Minitalk.Routing

set_option autoImplicit false

namespace Akiso.Minitalk

open Transition

def Retained (server : Server) : Prop :=
  ∀ fd conn, server.connection fd = some conn → ∃! slot, (server.loggedIn slot).fd = fd

def SlotFree (server : Server) : ServerLabel → Prop
  | .accept _ => ∃ slot, (server.loggedIn slot).fd = 0
  | _ => True

def Held (server : Server) : Prop :=
  ∀ fd conn, server.connection fd = some conn → ∃ slot, (server.loggedIn slot).fd = fd

def Dropped (server : Server) (fd : Nat) : Prop :=
  (∃ conn, server.connection fd = some conn) ∧ ∀ slot, (server.loggedIn slot).fd ≠ fd

variable {server next : Server} {slot : Slot} {fd : Nat}

theorem Routed.retained_iff (routed : Routed server) : Retained server ↔ Held server := by
  constructor
  · intro retained fd conn found
    obtain ⟨slot, here, _⟩ := retained fd conn found
    exact ⟨slot, here⟩
  · intro held fd conn found
    obtain ⟨slot, here⟩ := held fd conn found
    have present : (server.loggedIn slot).fd ≠ 0 := by
      intro gone
      rw [connection_eq_some, ← here, gone, routed.zero] at found
      cases found
    refine ⟨slot, here, fun other there => ?_⟩
    exact routed.sameSlot present (there.trans here.symm)

theorem not_held_iff : ¬ Held server ↔ ∃ fd, Dropped server fd := by
  simp only [Held, Dropped]
  push Not
  constructor
  · rintro ⟨fd, conn, found, unheld⟩
    exact ⟨fd, ⟨conn, found⟩, unheld⟩
  · rintro ⟨fd, ⟨conn, found⟩, unheld⟩
    exact ⟨fd, conn, found, unheld⟩

inductive Moves (server next : Server) : ServerLabel → Prop where
  | kept {label : ServerLabel} : (∀ peer, label ≠ .accept peer) →
      (∀ fd, next.connection fd = server.connection fd) →
      (∀ slot, (next.loggedIn slot).fd = (server.loggedIn slot).fd) → Moves server next label
  | removed {label : ServerLabel} (slot : Slot) : (∀ peer, label ≠ .accept peer) →
      (∀ fd, next.connection fd =
        if fd = (server.loggedIn slot).fd then none else server.connection fd) →
      (∀ other, (next.loggedIn other).fd =
        if other = slot then 0 else (server.loggedIn other).fd) → Moves server next label
  | seated (peer : Nat) (slot : Slot) : (server.loggedIn slot).fd = 0 →
      server.descriptors peer = none →
      (∀ fd, next.connection fd =
        if fd = peer then some server.nextConn else server.connection fd) →
      (∀ other, (next.loggedIn other).fd =
        if other = slot then peer else (server.loggedIn other).fd) →
      Moves server next (.accept peer)
  | dropped (peer : Nat) : (∀ slot, (server.loggedIn slot).fd ≠ 0) →
      server.descriptors peer = none →
      (∀ fd, next.connection fd =
        if fd = peer then some server.nextConn else server.connection fd) →
      (∀ slot, (next.loggedIn slot).fd = (server.loggedIn slot).fd) →
      Moves server next (.accept peer)

theorem awaitSelection_fd (user : User) : (awaitSelection user).fd = user.fd := by
  unfold awaitSelection
  split
  next => rfl
  next => rfl

theorem accept_moves {peer : Nat} (fresh : server.descriptors peer = none) :
    Moves server (buildSets (acceptPeer server peer)) (.accept peer) := by
  rcases acceptPeer_cases server peer with ⟨slot, free, stored⟩ | ⟨full, dropped⟩
  · rw [stored]
    refine .seated peer slot free fresh (openConnection_connection server peer) fun other => ?_
    rw [buildSets, awaitSelection_fd]
    by_cases same : other = slot
    · simp [same, Server.log]
    · simp [same, Server.log, Server.setUser_other _ _ same, openConnection]
  · rw [dropped]
    refine .dropped peer full fresh (openConnection_connection server peer) fun slot => ?_
    rw [buildSets, awaitSelection_fd]
    rfl

theorem serve_moves (routed : Routed server) {readable writable left : FdSet}
    (phase : Phase) (served : serveSlot server slot readable writable = some (next, left)) :
    Moves server { next with phase } .serve := by
  rcases serveSlot_cases (routed.stored slot) served with
    ⟨rfl, _⟩ | ⟨conn, line, rest, present, _, _, _, turn⟩
  · exact .kept nofun (fun _ => rfl) fun _ => rfl
  · have gone : Moves server { removeUser (consume server conn rest) slot with phase } .serve := by
      refine .removed slot nofun (fun fd => removeUser_connection fd) fun other => ?_
      by_cases same : other = slot
      · simp [same, noUser]
      · simp [same, removeUser_other same, consume, Server.log]
    have still : ∀ user : User, user.fd = (server.loggedIn slot).fd →
        ∀ other, (((consume server conn rest).setUser slot user).loggedIn other).fd =
          (server.loggedIn other).fd := by
      intro user own other
      by_cases same : other = slot
      · simp [same, own]
      · rw [Server.setUser_other _ _ same]
        rfl
    cases turn with
    | removed => exact gone
    | named name _ => exact .kept nofun (fun _ => rfl) (still _ rfl)
    | selected buff _ _ =>
      have consumed := routed.consume conn rest
      rcases consumed.selectTarget_cases present buff with removed | ⟨_, _, _, _, _, _, _, chosen⟩
      · rw [removed]
        exact gone
      · rw [chosen]
        exact .kept nofun (fun _ => rfl) (still _ rfl)
    | forwarded _ _ _ => exact .kept nofun (fun _ => rfl) fun _ => rfl

theorem step_moves (routed : Routed server) {label : ServerLabel}
    (taken : serverStep server label = some next) : Moves server next label := by
  cases serverStep_cases taken with
  | received _ _ _ => exact .kept nofun (fun _ => rfl) fun _ => rfl
  | accepted peer _ fresh => exact accept_moves fresh
  | interrupted _ => exact .kept nofun (fun _ => rfl) fun slot => awaitSelection_fd _
  | timedOut _ _ _ => exact .kept nofun (fun _ => rfl) fun _ => rfl
  | readied _ _ _ _ _ _ _ => exact .kept nofun (fun _ => rfl) fun _ => rfl
  | served slot rest readable writable left next _ turn => exact serve_moves routed _ turn
  | allServed _ _ _ => exact .kept nofun (fun _ => rfl) fun _ => rfl
  | prompted slot rest writable _ =>
    rcases promptSlot_cases server slot writable with silent | prompted
    · rw [silent]
      exact .kept nofun (fun _ => rfl) fun _ => rfl
    · rw [prompted]
      exact .kept nofun (fun _ => rfl) fun _ => rfl
  | allPrompted _ _ => exact .kept nofun (fun _ => rfl) fun _ => rfl

theorem Held.step (held : Held server) (routed : Routed server) {label : ServerLabel}
    (free : SlotFree server label) (taken : serverStep server label = some next) : Held next := by
  cases step_moves routed taken with
  | kept _ connections fds =>
    intro fd conn found
    rw [connections] at found
    obtain ⟨slot, here⟩ := held fd conn found
    exact ⟨slot, (fds slot).trans here⟩
  | removed slot _ connections fds =>
    intro fd conn found
    rw [connections] at found
    split at found
    next => simp at found
    next other =>
      obtain ⟨holder, here⟩ := held fd conn found
      have different : holder ≠ slot := fun same => other (same ▸ here.symm)
      exact ⟨holder, by rw [fds, if_neg different, here]⟩
  | seated peer slot free fresh connections fds =>
    intro fd conn found
    rw [connections] at found
    split at found
    next same => exact ⟨slot, by rw [fds, if_pos rfl, same]⟩
    next other =>
      obtain ⟨holder, here⟩ := held fd conn found
      have different : holder ≠ slot := by
        rintro rfl
        rw [connection_eq_some, ← here, free, routed.zero] at found
        cases found
      exact ⟨holder, by rw [fds, if_neg different, here]⟩
  | dropped peer full _ _ _ =>
    obtain ⟨slot, empty⟩ := free
    exact absurd empty (full slot)

theorem Dropped.step (dropped : Dropped server fd) (routed : Routed server) {label : ServerLabel}
    (taken : serverStep server label = some next) : Dropped next fd := by
  obtain ⟨⟨conn, found⟩, unheld⟩ := dropped
  cases step_moves routed taken with
  | kept _ connections fds =>
    exact ⟨⟨conn, (connections fd).trans found⟩, fun slot => by rw [fds]; exact unheld slot⟩
  | removed slot _ connections fds =>
    refine ⟨⟨conn, ?_⟩, fun other => ?_⟩
    · rw [connections, if_neg (Ne.symm (unheld slot)), found]
    · rw [fds]
      split
      next =>
        rintro rfl
        rw [connection_eq_some, routed.zero] at found
        cases found
      next => exact unheld other
  | seated peer slot free fresh connections fds =>
    have other : fd ≠ peer := by
      rintro rfl
      rw [connection_eq_some, fresh] at found
      cases found
    refine ⟨⟨conn, ?_⟩, fun holder => ?_⟩
    · rw [connections, if_neg other, found]
    · rw [fds]
      split
      next => exact Ne.symm other
      next => exact unheld holder
  | dropped peer full fresh connections fds =>
    have other : fd ≠ peer := by
      rintro rfl
      rw [connection_eq_some, fresh] at found
      cases found
    exact ⟨⟨conn, by rw [connections, if_neg other, found]⟩,
      fun slot => by rw [fds]; exact unheld slot⟩

theorem dropped_of_full (routed : Routed server) {label : ServerLabel}
    (full : ¬ SlotFree server label) (taken : serverStep server label = some next) :
    ∃ fd, Dropped next fd := by
  obtain ⟨peer, rfl⟩ : ∃ peer, label = .accept peer := by
    cases label with
    | accept peer => exact ⟨peer, rfl⟩
    | _ => exact absurd True.intro full
  cases step_moves routed taken with
  | kept other _ _ => exact absurd rfl (other peer)
  | removed _ other _ _ => exact absurd rfl (other peer)
  | seated _ slot free _ _ _ => exact absurd ⟨slot, free⟩ full
  | dropped _ _ fresh connections fds =>
    refine ⟨peer, ⟨server.nextConn, by rw [connections, if_pos rfl]⟩, fun slot => ?_⟩
    rw [fds]
    exact routed.unheld fresh slot

theorem dropped_for_good {labels : List ServerLabel} (dropped : Dropped server fd)
    (routed : Routed server) (ran : run serverStep server labels = some next) :
    Dropped next fd := by
  induction labels generalizing server with
  | nil =>
    simp only [run, Option.some.injEq] at ran
    exact ran ▸ dropped
  | cons label rest ih =>
    obtain ⟨middle, taken, ran⟩ := run_cons ran
    exact ih (dropped.step routed taken) (routed.step taken) ran

theorem held_iff {labels : List ServerLabel} (held : Held server) (routed : Routed server)
    (ran : run serverStep server labels = some next) :
    Held next ↔ Always serverStep SlotFree server labels := by
  induction labels generalizing server with
  | nil =>
    simp only [run, Option.some.injEq] at ran
    exact iff_of_true (ran ▸ held) True.intro
  | cons label rest ih =>
    obtain ⟨middle, taken, ran⟩ := run_cons ran
    by_cases free : SlotFree server label
    · have later := ih (held.step routed free taken) (routed.step taken) ran
      constructor
      · intro kept
        refine ⟨free, fun other same => ?_⟩
        cases taken.symm.trans same
        exact later.mp kept
      · exact fun always => later.mpr (always.2 middle taken)
    · obtain ⟨fd, dropped⟩ := dropped_of_full routed free taken
      have lost := dropped_for_good dropped (routed.step taken) ran
      exact iff_of_false (not_held_iff.mpr ⟨fd, lost⟩) fun always => free always.1

theorem held_initial (system : SystemDescriptors) : Held (initialServer system) := by
  intro fd conn found
  have numbered := (routed_initial system).numbered fd conn found
  exact absurd numbered (Nat.not_lt_zero _)

theorem connections_retained (system : SystemDescriptors) (labels : List ServerLabel)
    (server : Server) (ran : run serverStep (initialServer system) labels = some server) :
    Retained server ↔ Always serverStep SlotFree (initialServer system) labels := by
  have routed := routed_reachable (reachable_of_run labels ran)
  exact routed.retained_iff.trans (held_iff (held_initial system) (routed_initial system) ran)

def seventeenClients : List ServerLabel :=
  (List.range 17).flatMap fun client => [.accept (4 + client), .timeout]

def twoClients : List ServerLabel := [.accept 4, .timeout, .accept 5]

theorem connections_retained_twoClients :
    ∃ server, run serverStep (initialServer plainSystem) twoClients = some server ∧
      Retained server := by
  refine ⟨_, rfl, (connections_retained plainSystem twoClients _ rfl).mpr ?_⟩
  refine ⟨⟨0, rfl⟩, fun first taken => ⟨True.intro, fun second waited => ⟨⟨1, ?_⟩, ?_⟩⟩⟩
  · cases taken
    cases waited
    decide
  · exact fun _ _ => True.intro

theorem connections_fail :
    ∃ server, run serverStep (initialServer plainSystem) seventeenClients = some server ∧
      server.phase = .accepting ∧ ¬ Retained server := by
  have lost : (run serverStep (initialServer plainSystem) seventeenClients).any (fun server =>
      server.phase = .accepting && server.connection 20 = some 16 &&
        decide (∀ slot, (server.loggedIn slot).fd ≠ 20)) = true := by
    decide +kernel
  obtain ⟨server, ran, facts⟩ := Option.any_eq_true _ _ |>.mp lost
  simp only [Bool.and_eq_true, decide_eq_true_eq] at facts
  refine ⟨server, ran, facts.1.1, fun retained => ?_⟩
  obtain ⟨slot, here, _⟩ := retained 20 16 facts.1.2
  exact facts.2 slot here

end Akiso.Minitalk
