import Mathlib.Data.List.Flatten
import Akiso.Minitalk.Streaming

set_option autoImplicit false

namespace Akiso.Minitalk

open Transition

-- A line is only ever forwarded straight after the read that brought it.
def Paired : List ServerEvent → Prop
  | [] => True
  | .forwarded source _ bytes :: older =>
    (∃ conn line rest, source = some conn ∧ older = .consumed conn line :: rest ∧
      bytes = line.take (bufferSize - 1)) ∧ Paired older
  | _ :: older => Paired older

def Mannerly (talk : Talk) (label : TalkLabel) : Prop :=
  EnteredWithin bufferSize talk label ∧ RoomyPrompt talk label

instance (talk : Talk) (label : TalkLabel) : Decidable (Mannerly talk label) :=
  inferInstanceAs (Decidable (_ ∧ _))

-- With what is under way a terminal shows what was written for it: all of it while the two ends of
-- the connection are there, and else the beginning.
def Client.Shows (client : Client) (ended : Prop) (screen : List UInt8) : Prop :=
  client.output ++ client.pending <+: screen ∧
    (¬ ended → client.output ++ client.pending = screen)

/-- Terminals show what was written for them, clients have sent the lines typed, and the lines
forwarded since a selection are the sender's next ones, each whole. -/
structure Conversing (talk : Talk) : Prop where
  shown : ∀ conn, (talk.clients conn).Shows (talk.Ended conn) (screenOf conn talk.server.events)
  proper : ∀ conn, (talk.clients conn).Proper bufferSize
  relayed : ∀ sender target since before,
    talk.server.events = since ++ .selected sender target :: before →
    Undisturbed sender target since → ∃ waiting,
      (talk.clients sender).entered =
          consumedLines sender before ++ writtenLines sender target since ++ waiting ∧
        bytesOf (talk.server.inbox sender) <+: waiting.flatten ∧
        ((talk.clients sender).hungUp = false → talk.killed = false → waiting.flatten =
          bytesOf (talk.server.inbox sender) ++ (talk.clients sender).sent)

structure Attuned (talk : Talk) : Prop where
  sound : Sound bufferSize talk
  relaying : Relaying talk.server
  paired : Paired talk.server.events
  shown : ∀ conn, (talk.clients conn).Shows (talk.Ended conn) (screenOf conn talk.server.events)

variable {client nextClient : Client} {server next : Server} {talk nextTalk : Talk}
  {label : ServerLabel} {conn sender target : ConnId} {slot : Slot} {writable : FdSet}
  {added since before events : List ServerEvent}

theorem sublist_eq_of_flatten {α : Type} {chosen all : List (List α)}
    (sublist : chosen.Sublist all) (flatten : chosen.flatten = all.flatten)
    (filled : ∀ line ∈ all, line ≠ []) : chosen = all := by
  induction sublist with
  | slnil => rfl
  | @cons chosen all line sublist ih =>
    exfalso
    have shorter := sublist.flatten.length_le
    have longer := List.length_pos_iff.mpr (filled line List.mem_cons_self)
    rw [flatten, List.flatten_cons, List.length_append] at shorter
    omega
  | @cons_cons chosen all line sublist ih =>
    rw [List.flatten_cons, List.flatten_cons, List.append_cancel_left_eq] at flatten
    rw [ih flatten fun other member => filled other (List.mem_cons_of_mem _ member)]

theorem Paired.append (paired : Paired events) (idle : ∀ event ∈ added, event.idle = true) :
    Paired (added ++ events) := by
  induction added with
  | nil => exact paired
  | cons event rest ih =>
    have tail := ih fun other member => idle other (List.mem_cons_of_mem _ member)
    have head := idle event List.mem_cons_self
    cases event <;> simp_all [Paired, ServerEvent.idle]

theorem Paired.tail {event : ServerEvent} (paired : Paired (event :: events)) : Paired events := by
  cases event with
  | forwarded => exact paired.2
  | arrived | accepted | consumed | selected | prompted | closed => exact paired

theorem Paired.reads (paired : Paired server.events) (reads : Reads server next) :
    Paired next.events := by
  cases reads with
  | nothing added events idle _ => exact events ▸ paired.append idle
  | closing fd conn result rest _ _ _ events _ _ => exact events ▸ paired
  | keeping fd conn line rest added _ returned _ _ events kind =>
    rw [events]
    rcases kind with idle | ⟨target, rfl⟩
    · exact Paired.append paired idle
    · refine ⟨⟨conn, nextLine (server.inbox conn), server.events, rfl, rfl, ?_⟩, paired⟩
      exact readLine_takes (Nat.zero_le _) returned

theorem writtenLines_sublist : ∀ since : List ServerEvent,
    Paired (since ++ .selected sender target :: before) →
    (writtenLines sender target since).Sublist
      ((consumedLines sender since).map fun line => line.take (bufferSize - 1))
  | [], _ => List.Sublist.refl _
  | event :: rest, paired => by
    have earlier := writtenLines_sublist rest paired.tail
    have split : writtenLines sender target (event :: rest) =
        writtenLines sender target rest ++ (event.writtenFor sender target).toList := by
      rw [← List.singleton_append, writtenLines_append]
      congr 1
    cases wrote : event.writtenFor sender target with
    | none =>
      rw [split, wrote, Option.toList_none, List.append_nil]
      refine earlier.trans (List.Sublist.map _ ?_)
      rw [← List.singleton_append, consumedLines_append]
      exact List.sublist_append_left _ _
    | some bytes =>
      -- The read that brought the line is the event before.
      cases event with
      | arrived | accepted | consumed | selected | prompted | closed => cases wrote
      | forwarded source receiver line =>
        have ours := wrote
        simp only [ServerEvent.writtenFor, Option.ite_none_right_eq_some, Option.some.injEq] at ours
        obtain ⟨⟨rfl, rfl⟩, rfl⟩ := ours
        obtain ⟨⟨reader, whole, others, same, shape, rfl⟩, behind⟩ := paired
        obtain rfl := Option.some.inj same
        cases rest with
        | nil => cases shape
        | cons read older =>
          obtain ⟨rfl, -⟩ := List.cons.inj shape
          have oldest := writtenLines_sublist older behind.tail
          have unwritten : writtenLines sender target (.consumed sender whole :: older) =
              writtenLines sender target older := by
            simp [writtenLines, ServerEvent.writtenFor]
          rw [split, wrote, unwritten, consumedLines_cons rfl, consumedLines_consumed, if_pos rfl,
            List.map_append]
          exact oldest.append (List.Sublist.refl _)

theorem takenBytes_consumedLines (events : List ServerEvent) :
    takenBytes conn events = (consumedLines conn events).flatten := by
  induction events with
  | nil => rfl
  | cons event rest ih =>
    rw [← List.singleton_append, takenBytes_append, consumedLines_append, List.flatten_append, ih]
    congr 1
    cases event with
    | consumed reader line =>
      by_cases same : reader = conn <;>
        simp [takenBytes, consumedLines, ServerEvent.takenFrom, ServerEvent.readFrom, same]
    | arrived | accepted | selected | forwarded | prompted | closed => rfl

theorem screenOf_append (newer older : List ServerEvent) :
    screenOf conn (newer ++ older) = screenOf conn older ++ screenOf conn newer := by
  simp [screenOf]

theorem Reads.events_grow (reads : Reads server next) :
    ∃ added, next.events = added ++ server.events := by
  cases reads with
  | nothing added events => exact ⟨added, events⟩
  | closing fd conn result rest _ _ _ events =>
    exact ⟨[.closed conn, .consumed conn (nextLine (server.inbox conn))], events⟩
  | keeping fd conn line rest added _ _ _ _ events =>
    exact ⟨added ++ [.consumed conn (nextLine (server.inbox conn))], by simp [events]⟩

theorem promptSent_eq (server : Server) (slot : Slot)
    (room : 13 + listedLength (promptEntries server slot) < promptCapacity) :
    promptSent server slot =
      if promptEntries server slot = [] then [] else promptText (promptEntries server slot) := by
  unfold promptSent
  split
  next none =>
    have silent : choiceSent (offerChoice server slot) = Option.none := by
      rw [← Option.not_isSome_iff_eq_none, choiceSent_isSome]
      exact not_not.mpr none
    simp [silent]
  next some =>
    have filled : (fun cell : Option UInt8 => cell.getD 0) ∘ Option.some = id := rfl
    rw [offerChoice_sends server slot some room, Option.getD_some, List.map_map, filled,
      List.map_id]
    rfl

theorem prompt_shows (room : 13 + listedLength (promptEntries server slot) < promptCapacity) :
    screenOf conn (promptSlot server slot writable).events =
      screenOf conn server.events ++
        if (server.loggedIn slot).fd ∈ writable ∧ (server.loggedIn slot).toFd = fdAwaiting ∧
            server.connection (server.loggedIn slot).fd = some conn then
          promptSent server slot
        else [] := by
  rw [promptSent_eq server slot room]
  unfold promptSlot
  dsimp only
  by_cases asked : (server.loggedIn slot).fd ∈ writable ∧ (server.loggedIn slot).toFd = fdAwaiting
  · rw [if_pos asked]
    by_cases none : promptEntries server slot = []
    · simp [none]
    · have one (target : Option ConnId) (entries : List (Slot × List UInt8)) :
          screenOf conn [.prompted target entries] =
            if target = some conn then promptText entries else [] := by
        simp [screenOf, ServerEvent.shownTo]
      rw [if_neg none, if_neg none, Server.log, ← List.singleton_append, screenOf_append, one]
      simp [asked]
  · rw [if_neg asked, if_neg fun wanted => asked ⟨wanted.1, wanted.2.1⟩, List.append_nil]

theorem written_shows (routed : Routed server)
    (internal : ∀ conn outcomes, label ≠ .arrive conn outcomes)
    (room : ∀ turn ∈ server.phase.promptTurn label,
      13 + listedLength (promptEntries server turn.1) < promptCapacity)
    (taken : serverStep server label = some next) :
    screenOf conn next.events =
      screenOf conn server.events ++ serverSent server next label conn := by
  unfold serverSent
  split
  next slot writable turn =>
    have fits := room (slot, writable) turn
    unfold Phase.promptTurn at turn
    split at turn
    next slot rest writable phase =>
      cases turn
      simp only [serverStep, phase, Option.some.injEq] at taken
      rw [← taken]
      exact prompt_shows fits
    next => cases turn
  next =>
    obtain ⟨added, grown⟩ := (step_reads routed internal taken).events_grow
    have new : next.events.take (next.events.length - server.events.length) = added := by
      simp [grown]
    rw [new, grown, screenOf_append]

theorem childTurn_shows {closed : Prop} {read : ServerRead} (offered : client.Offers closed read) :
    (childTurn client read).output ++ (childTurn client read).pending =
      client.output ++ client.pending := by
  cases read with
  | data received =>
    have positive : 0 < (ServerRead.data received).ret := by
      simpa [ServerRead.ret] using received.some
    obtain ⟨later, split⟩ := offered
    simp [childTurn, receiveLoop, positive, ServerRead.bytes, ← split]
  | closed => by_cases stale : client.errno = eintr <;>
      simp [childTurn, receiveLoop, ServerRead.ret, ServerRead.errno, ServerRead.bytes, stale]
  | failed errno => by_cases again : errno = eintr <;>
      simp [childTurn, receiveLoop, ServerRead.ret, ServerRead.errno, ServerRead.bytes, again]

-- The server's next line fits its buffer, for it is one of those the client has sent.
theorem Sound.fitting (sound : Sound bufferSize talk) (label : ServerLabel) :
    FittingLine talk.server label := by
  rintro rfl conn forwarding
  obtain ⟨fd, connected⟩ : ∃ fd, talk.server.connection fd = some conn := by
    unfold forwardingConn at forwarding
    split at forwarding
    next =>
      dsimp only at forwarding
      split at forwarding
      next => exact ⟨_, forwarding⟩
      next => cases forwarding
    next => cases forwarding
  obtain ⟨arrived, ends, waiting, streaming⟩ := sound.streams conn (.inl ⟨fd, connected⟩)
  refine streaming.fits (fun line member => (sound.proper conn).whole line ?_) (by decide)
  exact streaming.lines ▸ List.mem_append_right _ member

namespace Client.Shows

variable {ended still : Prop} {screen : List UInt8}

theorem congr (shows : client.Shows ended screen)
    (same : nextClient.output ++ nextClient.pending = client.output ++ client.pending)
    (later : ended → still) : nextClient.Shows still screen := by
  refine ⟨same ▸ shows.1, fun going => ?_⟩
  rw [same]
  exact shows.2 fun gone => going (later gone)

theorem lose (shows : client.Shows ended screen) (gone : still) (count : Nat) :
    { client with pending := client.pending.take count : Client }.Shows still screen := by
  refine ⟨?_, fun going => absurd gone going⟩
  have part : client.output ++ client.pending.take count <+: client.output ++ client.pending :=
    (List.prefix_append_right_inj _).mpr (List.take_prefix count client.pending)
  exact part.trans shows.1

end Client.Shows

namespace Attuned

theorem ended_setClient (stays : (talk.clients conn).Gone → client.Gone)
    (ended : talk.Ended conn) : (talk.setClient conn client).Ended conn := by
  unfold Talk.Ended
  rw [setClient_self]
  exact ended.imp_left stays

theorem setClient (attuned : Attuned talk) (sound : Sound bufferSize (talk.setClient conn client))
    (shown : client.Shows ((talk.setClient conn client).Ended conn)
      (screenOf conn talk.server.events)) :
    Attuned (talk.setClient conn client) where
  sound := sound
  relaying := attuned.relaying
  paired := attuned.paired
  shown other := by
    by_cases same : other = conn
    · subst same
      exact (setClient_self talk other client).symm ▸ shown
    · unfold Talk.Ended
      rw [setClient_other client same]
      exact attuned.shown other

theorem arrive (attuned : Attuned talk) {outcomes : List ReadOutcome}
    (sound : Sound bufferSize nextTalk)
    (taken : talk.arrive conn outcomes client = some nextTalk)
    (same : client.output ++ client.pending =
      (talk.clients conn).output ++ (talk.clients conn).pending)
    (stays : (talk.clients conn).Gone → client.Gone) : Attuned nextTalk := by
  obtain ⟨-, rfl⟩ := arrive_some taken
  refine ⟨sound, attuned.relaying.receive conn outcomes, ?paired, fun other => ?shown⟩
  case paired => exact Paired.append attuned.paired (by simp [ServerEvent.idle])
  case shown =>
    have silent : screenOf other (receive talk.server conn outcomes).events =
        screenOf other talk.server.events := by
      simp [receive, screenOf, ServerEvent.shownTo]
    have closed : .closed other ∈ talk.server.events →
        .closed other ∈ (receive talk.server conn outcomes).events :=
      fun member => List.mem_append_right _ member
    unfold Talk.Ended
    dsimp only
    rw [silent]
    by_cases here : other = conn
    · subst here
      rw [setClient_self]
      exact (attuned.shown other).congr same (Or.imp stays (Or.imp_left closed))
    · rw [setClient_other client here]
      exact (attuned.shown other).congr rfl (Or.imp_right (Or.imp_left closed))

theorem serve (attuned : Attuned talk) (roomy : RoomyPrompt talk (.server label))
    (taken : talkStep talk (.server label) = some nextTalk) : Attuned nextTalk := by
  have sound := attuned.sound.serve taken
  simp only [talkStep] at taken
  split at taken
  next able =>
    obtain ⟨next, step, rfl⟩ := Option.map_eq_some_iff.mp taken
    have internal : ∀ conn outcomes, label ≠ .arrive conn outcomes := by
      rintro conn outcomes rfl
      exact able.2
    have routed := attuned.sound.routed
    have reads := step_reads routed internal step
    refine ⟨sound, ?relaying, attuned.paired.reads reads, fun conn => ?shown⟩
    case relaying => exact attuned.relaying.step routed (attuned.sound.fitting label) step
    case shown =>
      obtain ⟨added, grown⟩ := reads.events_grow
      obtain ⟨-, -, -, -, -, typing, receiving⟩ := written_sent talk next label conn
      have later : talk.Ended conn →
          { talk with server := next, clients := talk.written next label : Talk }.Ended conn := by
        refine Or.imp (fun gone => ?_) (Or.imp_left fun closed => ?_)
        · exact ⟨typing.trans gone.1, receiving.trans gone.2⟩
        · exact grown ▸ List.mem_append_right added closed
      dsimp only
      rw [written_shows routed internal roomy step]
      by_cases ended : talk.Ended conn
      · have unreached : talk.written next label conn = talk.clients conn := if_pos ended
        rw [unreached]
        exact ⟨(attuned.shown conn).1.trans (List.prefix_append _ _),
          fun going => absurd (later ended) going⟩
      · have whole := (attuned.shown conn).2 ended
        have same : (talk.written next label conn).output ++
            (talk.written next label conn).pending =
              screenOf conn talk.server.events ++ serverSent talk.server next label conn := by
          simp [Talk.written, ended, ← whole]
        exact ⟨same ▸ List.prefix_rfl, fun _ => same⟩
  next => cases taken

theorem step (attuned : Attuned talk) {label : TalkLabel} (mannerly : Mannerly talk label)
    (taken : talkStep talk label = some nextTalk) : Attuned nextTalk := by
  have sound := attuned.sound.step (by decide) mannerly.1 taken
  have quiet {conn : ConnId} {client : Client}
      (sound : Sound bufferSize (talk.setClient conn client))
      (same : client.output ++ client.pending =
        (talk.clients conn).output ++ (talk.clients conn).pending)
      (stays : (talk.clients conn).Gone → client.Gone) : Attuned (talk.setClient conn client) :=
    attuned.setClient sound ((attuned.shown conn).congr same (ended_setClient stays))
  cases label with
  | server label => exact attuned.serve mannerly.2 taken
  | sigpipe conn label =>
    obtain ⟨-, rfl⟩ := sigpipe_some taken
    exact ⟨sound, attuned.relaying, attuned.paired, fun other =>
      (attuned.shown other).congr rfl fun _ => .inr (.inr rfl)⟩
  | keyed conn outcomes =>
    obtain rfl := Option.some.inj taken
    exact quiet sound rfl id
  | enter conn reaped =>
    obtain ⟨client, turn, rfl⟩ := Option.map_eq_some_iff.mp taken
    obtain ⟨typing, ⟨line, rest, -, -, rfl⟩ | ⟨rest, rfl⟩⟩ :=
      parentTurn_cases (by decide) mannerly.1 turn
    · exact quiet sound rfl fun gone => absurd gone.1 (by simp [typing])
    · exact quiet sound rfl fun gone => absurd gone.1 (by simp [typing])
  | deliver conn count =>
    simp only [talkStep] at taken
    split at taken
    next => exact attuned.arrive sound taken rfl id
    next => cases taken
  | hangUp conn outcome =>
    simp only [talkStep] at taken
    split at taken
    next => exact attuned.arrive sound taken rfl id
    next => cases taken
  | receive conn read =>
    simp only [talkStep, Option.ite_none_right_eq_some, Option.some.injEq] at taken
    obtain ⟨⟨receiving, offered⟩, rfl⟩ := taken
    exact quiet sound (childTurn_shows offered) fun gone => absurd gone.2 (by simp [receiving])
  | lost conn count =>
    simp only [talkStep, Option.ite_none_right_eq_some, Option.some.injEq] at taken
    obtain ⟨ended, rfl⟩ := taken
    refine attuned.setClient sound ((attuned.shown conn).lose (ended_setClient ?_ ended) count)
    exact id
  | parentKilled conn =>
    obtain rfl := Option.some.inj taken
    exact quiet sound rfl fun gone => ⟨rfl, gone.2⟩
  | childKilled conn =>
    obtain rfl := Option.some.inj taken
    exact quiet sound rfl fun gone => ⟨gone.1, rfl⟩

theorem initial (system : SystemDescriptors) : Attuned (initialTalk system) where
  sound := .initial bufferSize system
  relaying := relaying_initial system
  paired := True.intro
  shown _ := ⟨List.prefix_rfl, fun _ => rfl⟩

theorem conversing (attuned : Attuned talk) : Conversing talk where
  shown := attuned.shown
  proper := attuned.sound.proper
  relayed sender target since before shape undisturbed := by
    obtain ⟨⟨slot, connected, -⟩, faithful⟩ :=
      attuned.relaying.kept sender target since before shape undisturbed
    obtain ⟨arrived, ends, waiting, streaming⟩ := attuned.sound.streams sender (.inl ⟨_, connected⟩)
    have lines := streaming.lines
    have taken : consumedLines sender talk.server.events =
        consumedLines sender before ++ consumedLines sender since := by
      rw [shape, consumedLines_append, consumedLines_cons rfl]
    have whole : ∀ line ∈ consumedLines sender since, WholeLine bufferSize line := by
      intro line member
      apply (attuned.sound.proper sender).whole line
      rw [lines, taken]
      exact List.mem_append_left _ (List.mem_append_right _ member)
    have uncut : (consumedLines sender since).map (fun line => line.take (bufferSize - 1)) =
        consumedLines sender since := by
      refine (List.map_congr_left fun line member => ?_).trans (List.map_id _)
      exact List.take_of_length_le (Nat.le_sub_one_of_lt (whole line member).2.2)
    have paired : Paired (since ++ .selected sender target :: before) := shape ▸ attuned.paired
    have among := writtenLines_sublist since paired
    rw [uncut] at among
    have same := sublist_eq_of_flatten among
      (faithful.exact.symm.trans (takenBytes_consumedLines since))
      fun line member => (whole line member).ne_nil
    refine ⟨waiting, by rw [lines, taken, same], ?_, fun _ _ => ?_⟩
    · rw [streaming.bytes, streaming.underway]
      exact List.prefix_append _ _
    · rw [streaming.bytes]
      exact streaming.underway

end Attuned

/-- Whatever the order in which users type, networks deliver or lose, processes are killed and the
server runs: what is typed to a selected user is shown there line for line. -/
theorem conversation_faithful (system : SystemDescriptors) (talk : Talk)
    (reached : Reaches talkStep Mannerly (initialTalk system) talk) : Conversing talk := by
  have attuned : Attuned talk :=
    reached.invariant Attuned (.initial system) fun _ _ _ attuned mannerly taken =>
      attuned.step mannerly taken
  exact attuned.conversing

def scanned (first : List TalkLabel) : List TalkLabel := first ++ wholeScan.map .server

def talkRun : List TalkLabel :=
  scanned [.server (.accept 4), .keyed 0 (typed "ann\n"), .enter 0 false, .deliver 0 4,
      .server (.ready [4] [])] ++
    scanned [.server (.accept 5), .keyed 1 (typed "bob\n"), .enter 1 false, .deliver 1 4,
      .server (.ready [5] [])] ++
    scanned [.keyed 0 (typed "1\nhi\n"), .enter 0 false, .enter 0 false, .server .interrupted,
      .deliver 0 2, .server (.ready [4] [])] ++
    [.server .interrupted, .deliver 0 3, .server (.ready [4] [5]), .server .serve,
      .receive 1 (.data { bytes := asciiText "Enter logi", some := by decide, fits := by decide }),
      .receive 1 (.data { bytes := asciiText "n\nhi\n", some := by decide, fits := by decide })]

theorem conversation_faithful_afterLine :
    let talk := arrival talkStep Mannerly (initialTalk plainSystem) talkRun
    (talk.clients 1).output = asciiText "Enter login\nhi\n" ∧ Conversing talk := by
  intro talk
  refine ⟨by decide +kernel, ?_⟩
  exact conversation_faithful plainSystem talk (reaches_arrival _)

end Akiso.Minitalk
