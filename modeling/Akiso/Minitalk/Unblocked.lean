import Akiso.Minitalk.Conversation

set_option autoImplicit false

namespace Akiso.Minitalk

open Transition

-- What needs no user: the network brings what has been sent, and the server serves.
def TalkLabel.automatic : TalkLabel → Bool
  | .deliver _ _ => true
  | .server .serve => true
  | _ => false

def Proceeds (talk last : Talk) : Prop :=
  Reaches talkStep (fun _ label => label.automatic = true) talk last

-- A write that kills the server comes in the place of the step it belongs to.
def TalkLabel.Instead (label other : TalkLabel) : Prop :=
  ∃ conn step, label = .server step ∧ other = .sigpipe conn step

-- The round is over; or a client was gone at its start, and the server has died of writing.
def RoundOver (talk last : Talk) : Prop :=
  (∃ writable, last.server.phase = .prompting (List.finRange 16) writable) ∨
    last.killed = true ∧ ∃ conn, (talk.clients conn).Gone

def Phase.unserved : Phase → List Slot × FdSet
  | .serving slots readable _ => (slots, readable)
  | _ => ([], [])

structure Expecting (server : Server) : Prop where
  distinct : server.phase.unserved.1.Nodup
  arrived : ∀ slot ∈ server.phase.unserved.1,
    (server.loggedIn slot).fd ∈ server.phase.unserved.2 →
    ∀ conn, server.connection (server.loggedIn slot).fd = some conn → server.inbox conn ≠ []

variable {client : Client} {inbox ends outcomes : List ReadOutcome}
  {taken waiting : List (List UInt8)} {arrived : List UInt8} {limit n : Nat}
  {server next : Server} {talk nextTalk : Talk} {conn : ConnId} {slot : Slot} {slots : List Slot}
  {readable writable left : FdSet}

theorem readLine_isSome {stored : List UInt8}
    (ended : ∃ outcome ∈ outcomes, outcome = .byte newline ∨ outcome = .closed ∨ outcome = .error) :
    (readLine n stored outcomes).isSome := by
  obtain ⟨outcome, member, kind⟩ := ended
  fun_induction readLine n stored outcomes with
  | case1 => cases member
  | case2 stored rest ih =>
    rcases List.mem_cons.mp member with rfl | later
    · rcases kind with same | same | same <;> cases same
    · exact ih later
  | case3 | case4 | case5 => rfl
  | case6 stored value rest more ih =>
    rcases List.mem_cons.mp member with rfl | later
    · rcases kind with same | same | same <;> cases same
      exact absurd rfl more
    · exact ih later

theorem serveSlot_isSome
    (returns : ∀ conn, server.connection (server.loggedIn slot).fd = some conn →
      (server.loggedIn slot).fd ∈ readable → (readLine bufferSize [] (server.inbox conn)).isSome) :
    (serveSlot server slot readable writable).isSome := by
  unfold serveSlot
  dsimp only
  split
  next => rfl
  next looked =>
    have ready : (server.loggedIn slot).fd ∈ readable := not_not.mp (not_or.mp looked).2
    have reads (leaveNewline : Bool) : (readUser server slot leaveNewline).isSome := by
      unfold readUser
      split
      next => rfl
      next conn connected =>
        have returned := returns conn connected ready
        split
        next blocked => rw [blocked] at returned; cases returned
        next => rfl
        next => rfl
        next => split <;> rfl
    split
    next => simpa using reads false
    next =>
      split
      next => simpa using reads false
      next =>
        split
        next => simpa using reads true
        next => rfl

theorem serveSlot_inbox (routed : Routed server)
    (served : serveSlot server slot readable writable = some (next, left)) :
    next.inbox = server.inbox ∨
      ∃ conn rest, server.connection (server.loggedIn slot).fd = some conn ∧
        next.inbox = Function.update server.inbox conn rest := by
  rcases serveSlot_cases (routed.stored slot) served with
    ⟨rfl, -⟩ | ⟨conn, line, rest, present, -, connected, returned, turn⟩
  · exact .inl rfl
  · refine .inr ⟨conn, rest, connected, ?_⟩
    cases turn with
    | removed => rfl
    | named name nameless => rfl
    | forwarded named forwarding wanted => rfl
    | selected buff named awaiting =>
      rcases (routed.consume conn rest).selectTarget_cases present buff with
        removed | ⟨_, _, _, _, _, _, _, chosen⟩
      · exact removed ▸ rfl
      · exact chosen ▸ rfl

theorem Streaming.unblocks (streaming : Streaming client inbox taken arrived ends waiting)
    (whole : ∀ line ∈ waiting, WholeLine limit line) (some : inbox ≠ []) {stored : List UInt8} :
    (client.hungUp = true → (readLine n stored inbox).isSome) ∧
      (client.hungUp = false →
        (readLine n stored (inbox ++ client.sent.map .byte)).isSome) := by
  constructor
  · intro hungUp
    obtain ⟨outcome, member⟩ := List.exists_mem_of_ne_nil ends (streaming.hung.mpr hungUp)
    refine readLine_isSome ⟨outcome, ?_, .inr (streaming.finished outcome member)⟩
    exact streaming.inbox ▸ List.mem_append_right _ member
  · intro connected
    have going : ends = [] := by
      by_contra ended
      rw [streaming.hung.mp ended] at connected
      cases connected
    subst going
    have inbox := streaming.inbox
    rw [List.append_nil] at inbox
    subst inbox
    have unread : waiting ≠ [] := by
      rintro rfl
      exact some (by simp [(List.append_eq_nil_iff.mp streaming.underway.symm).1])
    obtain ⟨line, member⟩ := List.exists_mem_of_ne_nil waiting unread
    obtain ⟨body, rfl, -⟩ := (whole line member).split
    have inside : newline ∈ arrived ++ client.sent := by
      rw [← streaming.underway]
      exact List.mem_flatten.mpr ⟨_, member, by simp⟩
    refine readLine_isSome ⟨.byte newline, ?_, .inl rfl⟩
    rw [← List.map_append]
    exact List.mem_map_of_mem inside

namespace Expecting

theorem idle (distinct : server.phase.unserved = ([], [])) : Expecting server where
  distinct := distinct ▸ List.nodup_nil
  arrived slot member := by
    rw [distinct] at member
    cases member

theorem receive (expecting : Expecting server) (conn : ConnId) (outcomes : List ReadOutcome) :
    Expecting (receive server conn outcomes) where
  distinct := expecting.distinct
  arrived slot member ready other connected := by
    have before := expecting.arrived slot member ready other connected
    by_cases same : other = conn
    · subst same
      simp [Minitalk.receive, before]
    · simpa [Minitalk.receive, same] using before

theorem serve (expecting : Expecting server) (routed : Routed server)
    (phase : server.phase = .serving (slot :: slots) readable writable)
    (served : serveSlot server slot readable writable = some (next, left)) :
    Expecting { next with phase := .serving slots readable left } := by
  obtain ⟨distinct, arrived⟩ := expecting
  rw [phase] at distinct arrived
  obtain ⟨unlisted, rest⟩ := List.nodup_cons.mp distinct
  refine ⟨rest, fun other listed ready conn connected => ?_⟩
  have apart : other ≠ slot := fun same => unlisted (same ▸ listed)
  obtain ⟨fd, found⟩ : (next.loggedIn other).fd = (server.loggedIn other).fd ∧
      server.connection (next.loggedIn other).fd = some conn := by
    cases serve_moves routed .accepting served with
    | kept _ connections fds => exact ⟨fds other, (connections _).symm.trans connected⟩
    | removed gone _ connections fds =>
      have before : server.connection (next.loggedIn other).fd = some conn := by
        have after := (connections (next.loggedIn other).fd).symm.trans connected
        split at after
        next => cases after
        next => exact after
      refine ⟨(fds other).trans (if_neg fun same => ?_), before⟩
      rw [show (next.loggedIn other).fd = 0 from (fds other).trans (if_pos same),
        connection_eq_some, routed.zero] at before
      cases before
  rw [fd] at found
  have before := arrived other (List.mem_cons_of_mem _ listed) (fd ▸ ready) conn found
  change next.inbox conn ≠ []
  rcases serveSlot_inbox routed served with same | ⟨reader, left, reads, changed⟩
  · rwa [same]
  · have different : conn ≠ reader := by
      rintro rfl
      have same := routed.apart _ _ _ found reads
      have present : (server.loggedIn slot).fd ≠ 0 := by
        intro gone
        rw [gone, connection_eq_some, routed.zero] at reads
        cases reads
      exact apart (routed.sameSlot present same)
    rwa [changed, Function.update_of_ne different]

theorem step (expecting : Expecting talk.server) (routed : Routed talk.server) {label : TalkLabel}
    (step : talkStep talk label = some nextTalk) : Expecting nextTalk.server := by
  have arrive {conn : ConnId} {outcomes : List ReadOutcome} {client : Client}
      (step : talk.arrive conn outcomes client = some nextTalk) : Expecting nextTalk.server := by
    obtain ⟨-, rfl⟩ := arrive_some step
    exact expecting.receive conn outcomes
  cases label with
  | server label =>
    simp only [talkStep] at step
    split at step
    next available =>
      obtain ⟨next, taken, rfl⟩ := Option.map_eq_some_iff.mp step
      cases serverStep_cases taken with
      | received => exact available.2.elim
      | accepted | interrupted | timedOut | allServed | prompted | allPrompted => exact .idle rfl
      | readied offered wanted readable writable _ _ _ =>
        exact ⟨List.nodup_finRange 16, fun slot _ ready conn connected =>
          available.2 _ ready conn connected⟩
      | served slot rest readable writable left next phase turn =>
        exact expecting.serve routed phase turn
    next => cases step
  | sigpipe conn label =>
    obtain ⟨-, rfl⟩ := sigpipe_some step
    exact expecting
  | keyed conn outcomes =>
    obtain rfl := Option.some.inj step
    exact expecting
  | enter conn reaped =>
    obtain ⟨client, -, rfl⟩ := Option.map_eq_some_iff.mp step
    exact expecting
  | deliver conn count =>
    simp only [talkStep] at step
    split at step
    next => exact arrive step
    next => cases step
  | hangUp conn outcome =>
    simp only [talkStep] at step
    split at step
    next => exact arrive step
    next => cases step
  | receive conn read =>
    simp only [talkStep, Option.ite_none_right_eq_some, Option.some.injEq] at step
    obtain ⟨-, rfl⟩ := step
    exact expecting
  | lost conn count =>
    simp only [talkStep, Option.ite_none_right_eq_some, Option.some.injEq] at step
    obtain ⟨-, rfl⟩ := step
    exact expecting
  | parentKilled conn =>
    obtain rfl := Option.some.inj step
    exact expecting
  | childKilled conn =>
    obtain rfl := Option.some.inj step
    exact expecting

end Expecting

theorem serve_taken (alive : talk.killed = false)
    (phase : talk.server.phase = .serving (slot :: slots) readable writable)
    (served : (serveSlot talk.server slot readable writable).isSome) :
    ∃ nextTalk left, talkStep talk (.server .serve) = some nextTalk ∧
      nextTalk.server.phase = .serving slots readable left := by
  obtain ⟨⟨next, left⟩, turn⟩ := Option.isSome_iff_exists.mp served
  simp only [talkStep, alive, Talk.Ready, and_self, if_true, serverStep, phase, turn,
    Option.map_some]
  exact ⟨_, left, rfl, rfl⟩

theorem turn_ends (alive : talk.killed = false) (sound : Sound limit talk)
    (expecting : Expecting talk.server)
    (phase : talk.server.phase = .serving (slot :: slots) readable writable) :
    ∃ nextTalk left, Proceeds talk nextTalk ∧
      nextTalk.server.phase = .serving slots readable left := by
  have line {conn : ConnId} (ready : (talk.server.loggedIn slot).fd ∈ readable)
      (connected : talk.server.connection (talk.server.loggedIn slot).fd = some conn) :
      ((talk.clients conn).hungUp = true →
          (readLine bufferSize [] (talk.server.inbox conn)).isSome) ∧
        ((talk.clients conn).hungUp = false → (readLine bufferSize []
          (talk.server.inbox conn ++ (talk.clients conn).sent.map .byte)).isSome) := by
    obtain ⟨arrived, ends, waiting, streaming⟩ := sound.streams conn (.inl ⟨_, connected⟩)
    have whole : ∀ line ∈ waiting, WholeLine limit line := fun line member =>
      (sound.proper conn).whole line (streaming.lines ▸ List.mem_append_right _ member)
    refine streaming.unblocks whole (expecting.arrived slot ?_ ?_ conn connected)
    · simp [phase, Phase.unserved]
    · simpa [phase, Phase.unserved] using ready
  by_cases underway : ∃ conn, (talk.server.loggedIn slot).fd ∈ readable ∧
      talk.server.connection (talk.server.loggedIn slot).fd = some conn ∧
      (talk.clients conn).hungUp = false
  · obtain ⟨conn, ready, connected, going⟩ := underway
    have delivered : ∃ middle, talkStep talk (.deliver conn (talk.clients conn).sent.length) =
        some middle ∧ middle.killed = false ∧ middle.server =
          receive talk.server conn ((talk.clients conn).sent.map .byte) := by
      have accepted := sound.routed.numbered _ _ connected
      simp [talkStep, going, Talk.arrive, alive, serverStep, accepted, Talk.setClient]
    obtain ⟨middle, step, alive, server⟩ := delivered
    have served : (serveSlot middle.server slot readable writable).isSome := by
      refine serveSlot_isSome fun other found _ => ?_
      rw [server] at found ⊢
      obtain rfl : conn = other := Option.some.inj (connected.symm.trans found)
      have inbox : (receive talk.server conn ((talk.clients conn).sent.map .byte)).inbox conn =
          talk.server.inbox conn ++ (talk.clients conn).sent.map .byte := Function.update_self ..
      exact inbox ▸ (line ready connected).2 going
    have still : middle.server.phase = .serving (slot :: slots) readable writable :=
      (congrArg Server.phase server).trans phase
    obtain ⟨last, left, served, ended⟩ := serve_taken alive still served
    have brought : Proceeds talk middle := .next .refl rfl step
    exact ⟨last, left, .next brought rfl served, ended⟩
  · have served : (serveSlot talk.server slot readable writable).isSome := by
      refine serveSlot_isSome fun conn connected ready => (line ready connected).1 ?_
      by_contra going
      exact underway ⟨conn, ready, connected, Bool.not_eq_true _ ▸ going⟩
    obtain ⟨last, left, served, ended⟩ := serve_taken alive phase served
    exact ⟨last, left, Reaches.refl.next rfl served, ended⟩

theorem automatic_step {label : TalkLabel} (automatic : label.automatic = true)
    (taken : talkStep talk label = some nextTalk) : nextTalk.killed = talk.killed ∧
      ∀ conn, (nextTalk.clients conn).Gone ↔ (talk.clients conn).Gone := by
  cases label with
  | server label =>
    simp only [talkStep] at taken
    split at taken
    next =>
      obtain ⟨next, -, rfl⟩ := Option.map_eq_some_iff.mp taken
      refine ⟨rfl, fun conn => ?_⟩
      obtain ⟨-, -, -, -, -, typing, receiving⟩ := written_sent talk next label conn
      simp only [Client.Gone, typing, receiving]
    next => cases taken
  | deliver conn count =>
    simp only [talkStep] at taken
    split at taken
    next =>
      obtain ⟨-, rfl⟩ := arrive_some taken
      refine ⟨rfl, fun other => ?_⟩
      by_cases same : other = conn
      · subst same
        simp [setClient_self, Client.Gone]
      · simp [setClient_other _ same]
    next => cases taken
  | sigpipe | keyed | enter | hangUp | receive | lost | parentKilled | childKilled =>
    cases automatic

theorem Proceeds.gone (proceeds : Proceeds talk nextTalk) (conn : ConnId) :
    (nextTalk.clients conn).Gone → (talk.clients conn).Gone := by
  refine proceeds.invariant (fun later => (later.clients conn).Gone → (talk.clients conn).Gone)
    id ?_
  exact fun _ _ _ before automatic taken gone =>
    before (((automatic_step automatic taken).2 conn).mp gone)

theorem Proceeds.keeps (proceeds : Proceeds talk nextTalk) (small : limit ≤ clientBufferSize)
    (alive : talk.killed = false) (sound : Sound limit talk) (expecting : Expecting talk.server) :
    nextTalk.killed = false ∧ Sound limit nextTalk ∧ Expecting nextTalk.server := by
  refine proceeds.invariant
    (fun talk => talk.killed = false ∧ Sound limit talk ∧ Expecting talk.server)
    ⟨alive, sound, expecting⟩ ?_
  intro talk label next ⟨alive, sound, expecting⟩ automatic taken
  have untyped : EnteredWithin limit talk label := by
    cases label with
    | server | deliver => exact True.intro
    | sigpipe | keyed | enter | hangUp | receive | lost | parentKilled | childKilled =>
      cases automatic
  exact ⟨(automatic_step automatic taken).1.trans alive, sound.step small untyped taken,
    expecting.step sound.routed taken⟩

theorem round_ends (small : limit ≤ clientBufferSize) (alive : talk.killed = false)
    (sound : Sound limit talk) (expecting : Expecting talk.server)
    (phase : talk.server.phase = .serving slots readable writable) :
    ∃ last left, Proceeds talk last ∧
      last.server.phase = .prompting (List.finRange 16) left := by
  induction slots generalizing talk writable with
  | nil =>
    have step : talkStep talk (.server .serve) = some { talk with
        server := { talk.server with phase := .prompting (List.finRange 16) writable }
        clients := talk.written
          { talk.server with phase := .prompting (List.finRange 16) writable } .serve } := by
      simp only [talkStep, alive, Talk.Ready, and_self, if_true, serverStep, phase,
        Option.map_some]
    exact ⟨_, writable, Reaches.refl.next rfl step, rfl⟩
  | cons slot rest ih =>
    obtain ⟨middle, left, first, phase⟩ := turn_ends alive sound expecting phase
    obtain ⟨alive, sound, expecting⟩ := first.keeps small alive sound expecting
    obtain ⟨last, left, second, ended⟩ := ih alive sound expecting phase
    exact ⟨last, left, first.trans second, ended⟩

/-- As long as the users end their lines and the clients can take them whole, the server never
waits for one of them: what has been sent is enough for every user of the round to be served, unless
the server is killed by writing to a client that is gone. -/
theorem serving_ends (system : SystemDescriptors) (talk : Talk) (slots : List Slot)
    (readable writable : FdSet)
    (reached : Reaches talkStep (EnteredWithin clientBufferSize) (initialTalk system) talk)
    (alive : talk.killed = false)
    (serving : talk.server.phase = .serving slots readable writable) :
    Ensures talkStep (fun _ label => label.automatic = true) TalkLabel.Instead (RoundOver talk)
      talk := by
  have both : Sound clientBufferSize talk ∧ Expecting talk.server := by
    refine reached.invariant (fun talk => Sound clientBufferSize talk ∧ Expecting talk.server)
      ⟨.initial clientBufferSize system, .idle rfl⟩ ?_
    intro talk label next ⟨sound, expecting⟩ entered taken
    exact ⟨sound.step (Nat.le_refl _) entered taken, expecting.step sound.routed taken⟩
  obtain ⟨last, left, proceeds, ended⟩ := round_ends (Nat.le_refl _) alive both.1 both.2 serving
  refine Reaches.ensures proceeds (.inl ⟨left, ended⟩) ?_
  rintro middle _ _ after way ⟨conn, step, rfl, rfl⟩ taken
  obtain ⟨gone, rfl⟩ := sigpipe_some taken
  exact .inr ⟨rfl, conn, Proceeds.gone way conn gone⟩

def halfDelivered : Talk :=
  arrival talkStep (EnteredWithin clientBufferSize) (initialTalk plainSystem)
    [.server (.accept 4), .keyed 0 (typed "ann\n"), .enter 0 false, .deliver 0 2,
      .server (.ready [4] [])]

theorem serving_ends_halfDelivered :
    (talkStep halfDelivered (.server .serve)).isNone = true ∧
      Ensures talkStep (fun _ label => label.automatic = true) TalkLabel.Instead
        (RoundOver halfDelivered) halfDelivered := by
  refine ⟨by decide +kernel, ?_⟩
  exact serving_ends plainSystem halfDelivered (List.finRange 16) [4] [] (reaches_arrival _)
    (by decide +kernel) (by decide +kernel)

end Akiso.Minitalk
