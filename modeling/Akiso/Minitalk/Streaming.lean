import Akiso.Minitalk.Clients
import Akiso.Minitalk.Reads

set_option autoImplicit false

namespace Akiso.Minitalk

/-- Between a client and the calls of read_line that serve it: the bytes and the ends that have
arrived, and the lines still waiting to be read. -/
structure Streaming (client : Client) (inbox : List ReadOutcome) (taken : List (List UInt8))
    (arrived : List UInt8) (ends : List ReadOutcome) (waiting : List (List UInt8)) : Prop where
  inbox : inbox = arrived.map .byte ++ ends
  finished : ∀ outcome ∈ ends, outcome = .closed ∨ outcome = .error
  hung : ends ≠ [] ↔ client.hungUp = true
  complete : .closed ∈ ends → client.sent = []
  lines : client.entered = taken ++ waiting
  underway : waiting.flatten = arrived ++ client.sent

def Streams (talk : Talk) : Prop :=
  ∀ conn, Open talk.server conn → ∃ arrived ends waiting,
    Streaming (talk.clients conn) (talk.server.inbox conn) (consumedLines conn talk.server.events)
      arrived ends waiting

structure Sound (limit : Nat) (talk : Talk) : Prop where
  routed : Routed talk.server
  proper : ∀ conn, (talk.clients conn).Proper limit
  streams : Streams talk

variable {client nextClient : Client} {inbox ends rest : List ReadOutcome}
  {taken waiting : List (List UInt8)} {arrived : List UInt8} {limit n : Nat}
  {server next : Server} {talk nextTalk : Talk} {conn : ConnId}

namespace Streaming

theorem congr (streaming : Streaming client inbox taken arrived ends waiting)
    (entered : nextClient.entered = client.entered) (sent : nextClient.sent = client.sent)
    (hungUp : nextClient.hungUp = client.hungUp) :
    Streaming nextClient inbox taken arrived ends waiting where
  inbox := streaming.inbox
  finished := streaming.finished
  hung := hungUp ▸ streaming.hung
  complete := sent ▸ streaming.complete
  lines := entered ▸ streaming.lines
  underway := sent ▸ streaming.underway

theorem bytes (streaming : Streaming client inbox taken arrived ends waiting) :
    bytesOf inbox = arrived := by
  have nothing : ∀ outcomes : List ReadOutcome,
      (∀ outcome ∈ outcomes, outcome = .closed ∨ outcome = .error) → bytesOf outcomes = [] := by
    intro outcomes finished
    induction outcomes with
    | nil => rfl
    | cons outcome rest ih =>
      have tail := ih fun other member => finished other (List.mem_cons_of_mem _ member)
      rcases finished outcome List.mem_cons_self with rfl | rfl <;> simpa [bytesOf] using tail
  rw [streaming.inbox, bytesOf_append, bytesOf_bytes, nothing ends streaming.finished,
    List.append_nil]

theorem nextLine_ends (streaming : Streaming client inbox taken arrived ends waiting) :
    nextLine ends = [] := by
  cases ends with
  | nil => rfl
  | cons outcome rest =>
    rcases streaming.finished outcome List.mem_cons_self with rfl | rfl <;> rfl

theorem front (streaming : Streaming client inbox taken arrived ends waiting)
    (whole : ∀ line ∈ waiting, WholeLine limit line) :
    (waiting = [] ∧ arrived = [] ∧ client.sent = []) ∨
      ∃ line more, waiting = line :: more ∧ WholeLine limit line ∧
        ((∃ later, arrived = line ++ later ∧ more.flatten = later ++ client.sent) ∨
          newline ∉ arrived ∧ arrived.length < line.length ∧ client.sent ≠ []) := by
  have underway := streaming.underway
  cases waiting with
  | nil => exact .inl ⟨rfl, List.append_eq_nil_iff.mp underway.symm⟩
  | cons line more =>
    have proper := whole line List.mem_cons_self
    refine .inr ⟨line, more, rfl, proper, ?_⟩
    rw [List.flatten_cons] at underway
    rcases List.append_eq_append_iff.mp underway with
      ⟨later, split, flat⟩ | ⟨missing, split, sent⟩
    · exact .inl ⟨later, split, flat⟩
    · by_cases whole : missing = []
      · subst whole
        exact .inl ⟨[], by simpa using split.symm, sent.symm⟩
      · refine .inr ⟨fun member => ?_, ?_, ?_⟩
        · have plain := proper.2.1
          rw [split, List.dropLast_append_of_ne_nil whole, List.mem_append, not_or] at plain
          exact plain.1 member
        · have some := List.length_pos_iff.mpr whole
          rw [split, List.length_append]
          omega
        · rw [sent]
          exact fun none => whole (List.append_eq_nil_iff.mp none).1

theorem fits (streaming : Streaming client inbox taken arrived ends waiting)
    (whole : ∀ line ∈ waiting, WholeLine limit line) (positive : 0 < limit) :
    (nextLine inbox).length < limit := by
  rw [streaming.inbox]
  rcases streaming.front whole with
    ⟨-, rfl, -⟩ | ⟨line, more, -, proper, ⟨later, rfl, -⟩ | ⟨plain, short, -⟩⟩
  · simpa [streaming.nextLine_ends] using positive
  · obtain ⟨body, rfl, plain⟩ := proper.split
    have length := proper.2.2
    have shape : ((body ++ [newline] ++ later).map ReadOutcome.byte) ++ ends =
        body.map .byte ++ (.byte newline :: (later.map .byte ++ ends)) := by simp
    rw [shape, nextLine_plain plain]
    simpa [nextLine] using length
  · rw [nextLine_plain plain, streaming.nextLine_ends, List.append_nil]
    exact short.trans proper.2.2

theorem read (streaming : Streaming client inbox taken arrived ends waiting)
    (whole : ∀ line ∈ waiting, WholeLine limit line) {stored : List UInt8}
    (returned : readLine n [] inbox = some (some stored, rest)) (some : stored ≠ []) :
    ∃ line more later, waiting = line :: more ∧ nextLine inbox = line ∧
      Streaming client rest (taken ++ [line]) later ends more := by
  rw [streaming.inbox] at returned ⊢
  rcases streaming.front whole with
    ⟨-, rfl, -⟩ | ⟨line, more, rfl, proper, ⟨later, rfl, underway⟩ | ⟨plain, -, unsent⟩⟩
  · exfalso
    cases ends with
    | nil => cases returned
    | cons outcome others =>
      rcases streaming.finished outcome List.mem_cons_self with rfl | rfl
      · cases returned
        exact some rfl
      · cases returned
  · obtain ⟨body, rfl, plain⟩ := proper.split
    have shape : ((body ++ [newline] ++ later).map ReadOutcome.byte) ++ ends =
        body.map .byte ++ (.byte newline :: (later.map .byte ++ ends)) := by simp
    rw [shape] at returned ⊢
    obtain ⟨kept, same⟩ :=
      readLine_plain (n := n) plain [] (.byte newline :: (later.map .byte ++ ends))
    rw [same] at returned
    simp only [readLine, if_true, Option.some.injEq, Prod.mk.injEq] at returned
    refine ⟨body ++ [newline], more, later, rfl, ?_, ?_⟩
    · rw [nextLine_plain plain]
      simp [nextLine]
    · exact
        { inbox := returned.2.symm
          finished := streaming.finished
          hung := streaming.hung
          complete := streaming.complete
          lines := by simpa using streaming.lines
          underway }
  · exfalso
    obtain ⟨kept, same⟩ := readLine_plain (n := n) plain [] ends
    rw [same] at returned
    cases ends with
    | nil => cases returned
    | cons outcome others =>
      rcases streaming.finished outcome List.mem_cons_self with rfl | rfl
      · exact unsent (streaming.complete List.mem_cons_self)
      · cases returned

theorem enter {reaped : Bool} (streaming : Streaming client inbox taken arrived ends waiting)
    (proper : client.Proper limit) (small : limit ≤ clientBufferSize)
    (line : typedLine client.keyboard ≠ [] → WholeLine limit (typedLine client.keyboard))
    (turn : parentTurn client reaped = some nextClient) :
    ∃ waiting, Streaming nextClient inbox taken arrived ends waiting := by
  obtain ⟨typing, ⟨line, rest, -, -, rfl⟩ | ⟨rest, rfl⟩⟩ := parentTurn_cases small line turn
  · have going : ends = [] := by
      by_contra ended
      rw [proper.quit (streaming.hung.mp ended)] at typing
      cases typing
    subst going
    refine ⟨waiting ++ [line], ?_⟩
    exact
      { inbox := streaming.inbox
        finished := streaming.finished
        hung := streaming.hung
        complete := by simp
        lines := by simp [streaming.lines]
        underway := by simp [streaming.underway] }
  · exact ⟨waiting, streaming.congr rfl rfl rfl⟩

theorem deliver (streaming : Streaming client inbox taken arrived ends waiting)
    (connected : client.hungUp = false) (count : Nat) :
    Streaming { client with sent := client.sent.drop count }
      (inbox ++ (client.sent.take count).map .byte) taken (arrived ++ client.sent.take count) ends
      waiting := by
  have going : ends = [] := by
    by_contra ended
    rw [streaming.hung.mp ended] at connected
    cases connected
  subst going
  exact
    { inbox := by simp [streaming.inbox]
      finished := streaming.finished
      hung := streaming.hung
      complete := by simp
      lines := streaming.lines
      underway := by simp [streaming.underway] }

theorem hangUp (streaming : Streaming client inbox taken arrived ends waiting)
    {outcome : ReadOutcome} (ending : outcome = .error ∨ outcome = .closed ∧ client.sent = []) :
    Streaming { client with hungUp := true } (inbox ++ [outcome]) taken arrived (ends ++ [outcome])
      waiting where
  inbox := by simp [streaming.inbox]
  finished other member := by
    rcases List.mem_append.mp member with old | new
    · exact streaming.finished other old
    · obtain rfl := List.mem_singleton.mp new
      exact ending.symm.imp And.left id
  hung := by simp
  complete member := by
    rcases List.mem_append.mp member with old | new
    · exact streaming.complete old
    · rw [← List.mem_singleton.mp new] at ending
      exact ending.elim (fun error => by cases error) And.right
  lines := streaming.lines
  underway := streaming.underway

end Streaming

theorem setClient_self (talk : Talk) (conn : ConnId) (client : Client) :
    (talk.setClient conn client).clients conn = client := Function.update_self ..

theorem setClient_other {other : ConnId} (client : Client) (different : other ≠ conn) :
    (talk.setClient conn client).clients other = talk.clients other :=
  Function.update_of_ne different ..

theorem arrived_silent (conn other : ConnId) (outcomes : List ReadOutcome)
    (events : List ServerEvent) :
    consumedLines other ((outcomes.map (.arrived conn)).reverse ++ events) =
      consumedLines other events := by
  have silent : consumedLines other (outcomes.map (.arrived conn)).reverse = [] :=
    consumedLines_idle (by simp [ServerEvent.idle])
  rw [consumedLines_append, silent, List.append_nil]

namespace Streams

theorem setClient (streams : Streams talk)
    (own : ∀ arrived ends waiting, Streaming (talk.clients conn) (talk.server.inbox conn)
      (consumedLines conn talk.server.events) arrived ends waiting →
        ∃ waiting, Streaming client (talk.server.inbox conn)
          (consumedLines conn talk.server.events) arrived ends waiting) :
    Streams (talk.setClient conn client) := by
  intro other opened
  obtain ⟨arrived, ends, waiting, streaming⟩ := streams other opened
  by_cases same : other = conn
  · subst same
    obtain ⟨waiting, streaming⟩ := own arrived ends waiting streaming
    exact ⟨arrived, ends, waiting, (setClient_self talk other client).symm ▸ streaming⟩
  · exact ⟨arrived, ends, waiting, (setClient_other client same).symm ▸ streaming⟩

theorem arrive (streams : Streams talk) {outcomes : List ReadOutcome}
    (own : ∀ arrived ends waiting, Streaming (talk.clients conn) (talk.server.inbox conn)
      (consumedLines conn talk.server.events) arrived ends waiting →
        ∃ arrived ends, Streaming client (talk.server.inbox conn ++ outcomes)
          (consumedLines conn talk.server.events) arrived ends waiting) :
    Streams { talk.setClient conn client with server := receive talk.server conn outcomes } := by
  intro other opened
  obtain ⟨arrived, ends, waiting, streaming⟩ := streams other opened
  have unread : consumedLines other (receive talk.server conn outcomes).events =
      consumedLines other talk.server.events := arrived_silent conn other outcomes _
  dsimp only
  rw [unread]
  by_cases same : other = conn
  · subst same
    obtain ⟨arrived, ends, streaming⟩ := own arrived ends waiting streaming
    have inbox : (receive talk.server other outcomes).inbox other =
        talk.server.inbox other ++ outcomes := Function.update_self ..
    rw [setClient_self, inbox]
    exact ⟨arrived, ends, waiting, streaming⟩
  · have inbox : (receive talk.server conn outcomes).inbox other = talk.server.inbox other :=
      Function.update_of_ne same ..
    rw [setClient_other client same, inbox]
    exact ⟨arrived, ends, waiting, streaming⟩

theorem serve (streams : Streams talk) (reads : Reads talk.server next)
    (whole : ∀ line ∈ (talk.clients conn).entered, WholeLine limit line)
    (before : Open talk.server conn)
    (lasting : ∀ fd other, talk.server.connection fd = some other → next.nextConn ≤ other → False)
    (opened : Open next conn) :
    ∃ arrived ends waiting, Streaming (talk.clients conn) (next.inbox conn)
      (consumedLines conn next.events) arrived ends waiting := by
  obtain ⟨arrived, ends, waiting, streaming⟩ := streams conn before
  have proper : ∀ line ∈ waiting, WholeLine limit line := fun line member =>
    whole line (streaming.lines ▸ List.mem_append_right _ member)
  cases reads with
  | nothing added events idle inbox =>
    rw [events, consumedLines_append, consumedLines_idle idle, List.append_nil, inbox]
    exact ⟨arrived, ends, waiting, streaming⟩
  | closing fd closed result rest connected returned inbox events gone numbers =>
    have different : conn ≠ closed := by
      rintro rfl
      rcases opened with ⟨fd, found⟩ | ahead
      · exact gone fd found
      · exact lasting fd conn connected ahead
    rw [events, consumedLines_cons rfl, consumedLines_consumed, if_neg (Ne.symm different),
      List.append_nil, inbox, Function.update_of_ne different]
    exact ⟨arrived, ends, waiting, streaming⟩
  | keeping fd reader line rest added connected returned full inbox events kind =>
    have silent : consumedLines conn added = [] := by
      rcases kind with idle | ⟨target, rfl⟩
      · exact consumedLines_idle idle
      · rfl
    rw [events, consumedLines_append, silent, List.append_nil, consumedLines_consumed, inbox]
    by_cases same : conn = reader
    · subst same
      obtain ⟨first, more, later, -, front, streaming⟩ := streaming.read proper returned full
      rw [if_pos rfl, Function.update_self, front]
      exact ⟨later, ends, more, streaming⟩
    · rw [if_neg (Ne.symm same), List.append_nil, Function.update_of_ne same]
      exact ⟨arrived, ends, waiting, streaming⟩

end Streams

theorem arrive_some {outcomes : List ReadOutcome}
    (taken : talk.arrive conn outcomes client = some nextTalk) :
    conn < talk.server.nextConn ∧ nextTalk =
      { talk.setClient conn client with server := receive talk.server conn outcomes } := by
  unfold Talk.arrive at taken
  split at taken
  next =>
    obtain ⟨next, step, rfl⟩ := Option.map_eq_some_iff.mp taken
    simp only [serverStep, Option.ite_none_right_eq_some, Option.some.injEq] at step
    exact ⟨step.1, step.2 ▸ rfl⟩
  next => cases taken

theorem sigpipe_some {label : ServerLabel}
    (taken : talkStep talk (.sigpipe conn label) = some nextTalk) :
    (talk.clients conn).Gone ∧ nextTalk = { talk with killed := true } := by
  simp only [talkStep] at taken
  split at taken
  next broken =>
    obtain ⟨next, -, taken⟩ := Option.bind_eq_some_iff.mp taken
    split at taken <;> cases taken
    exact ⟨broken.2.2, rfl⟩
  next => cases taken

theorem written_sent (talk : Talk) (next : Server) (label : ServerLabel) (conn : ConnId) :
    (talk.written next label conn).entered = (talk.clients conn).entered ∧
      (talk.written next label conn).sent = (talk.clients conn).sent ∧
      (talk.written next label conn).hungUp = (talk.clients conn).hungUp ∧
      (talk.written next label conn).keyed = (talk.clients conn).keyed ∧
      (talk.written next label conn).keyboard = (talk.clients conn).keyboard ∧
      (talk.written next label conn).typing = (talk.clients conn).typing ∧
      (talk.written next label conn).receiving = (talk.clients conn).receiving := by
  unfold Talk.written
  split <;> exact ⟨rfl, rfl, rfl, rfl, rfl, rfl, rfl⟩

namespace Sound

theorem setClient (sound : Sound limit talk) (proper : client.Proper limit)
    (own : ∀ arrived ends waiting, Streaming (talk.clients conn) (talk.server.inbox conn)
      (consumedLines conn talk.server.events) arrived ends waiting →
        ∃ waiting, Streaming client (talk.server.inbox conn)
          (consumedLines conn talk.server.events) arrived ends waiting) :
    Sound limit (talk.setClient conn client) where
  routed := sound.routed
  proper other := by
    by_cases same : other = conn
    · rw [same, setClient_self]
      exact proper
    · exact (setClient_other client same).symm ▸ sound.proper other
  streams := sound.streams.setClient own

theorem arrive (sound : Sound limit talk) {outcomes : List ReadOutcome}
    (taken : talk.arrive conn outcomes client = some nextTalk) (proper : client.Proper limit)
    (own : ∀ arrived ends waiting, Streaming (talk.clients conn) (talk.server.inbox conn)
      (consumedLines conn talk.server.events) arrived ends waiting →
        ∃ arrived ends, Streaming client (talk.server.inbox conn ++ outcomes)
          (consumedLines conn talk.server.events) arrived ends waiting) : Sound limit nextTalk := by
  obtain ⟨-, rfl⟩ := arrive_some taken
  exact
    { routed := sound.routed.receive conn outcomes
      proper := fun other => by
        by_cases same : other = conn
        · rw [same]
          exact (setClient_self talk conn client).symm ▸ proper
        · exact (setClient_other client same).symm ▸ sound.proper other
      streams := sound.streams.arrive own }

theorem serve (sound : Sound limit talk) {label : ServerLabel}
    (taken : talkStep talk (.server label) = some nextTalk) : Sound limit nextTalk := by
  simp only [talkStep] at taken
  split at taken
  next able =>
    obtain ⟨next, step, rfl⟩ := Option.map_eq_some_iff.mp taken
    have internal : ∀ conn outcomes, label ≠ .arrive conn outcomes := by
      rintro conn outcomes rfl
      exact able.2
    have reads := step_reads sound.routed internal step
    refine ⟨sound.routed.step step, fun conn => ?_, fun conn opened => ?_⟩
    · obtain ⟨entered, -, hungUp, keyed, keyboard, typing, -⟩ :=
        written_sent talk next label conn
      have proper := sound.proper conn
      refine proper.congr entered keyed keyboard (typing ▸ id) ?_
      rw [hungUp, typing]
      exact proper.quit
    · obtain ⟨entered, sent, hungUp, -⟩ := written_sent talk next label conn
      have numbered : ∀ fd other, talk.server.connection fd = some other →
          next.nextConn ≤ other → False := by
        intro fd other found ahead
        have early := sound.routed.numbered fd other found
        have later := (nextConn_le sound.routed step).trans ahead
        exact Nat.not_le.mpr early later
      obtain ⟨arrived, ends, waiting, streaming⟩ := sound.streams.serve reads
        (sound.proper conn).whole (opened.before sound.routed step) numbered opened
      exact ⟨arrived, ends, waiting, streaming.congr entered sent hungUp⟩
  next => cases taken

theorem step (sound : Sound limit talk) (small : limit ≤ clientBufferSize) {label : TalkLabel}
    (entered : EnteredWithin limit talk label) (taken : talkStep talk label = some nextTalk) :
    Sound limit nextTalk := by
  cases label with
  | server label => exact sound.serve taken
  | sigpipe conn label =>
    obtain ⟨-, rfl⟩ := sigpipe_some taken
    exact ⟨sound.routed, sound.proper, sound.streams⟩
  | keyed conn outcomes =>
    obtain rfl := Option.some.inj taken
    exact sound.setClient ((sound.proper conn).type outcomes) fun arrived ends waiting streaming =>
      ⟨waiting, streaming.congr rfl rfl rfl⟩
  | enter conn reaped =>
    obtain ⟨client, turn, rfl⟩ := Option.map_eq_some_iff.mp taken
    have proper := sound.proper conn
    exact sound.setClient (proper.enter small entered turn) fun arrived ends waiting streaming =>
      streaming.enter proper small entered turn
  | deliver conn count =>
    simp only [talkStep] at taken
    split at taken
    next connected =>
      have proper := sound.proper conn
      refine sound.arrive taken (proper.congr rfl rfl rfl id proper.quit) ?_
      exact fun arrived ends waiting streaming => ⟨_, _, streaming.deliver connected count⟩
    next => cases taken
  | hangUp conn outcome =>
    simp only [talkStep] at taken
    split at taken
    next ended =>
      obtain ⟨gone, ending⟩ := ended
      refine sound.arrive taken ((sound.proper conn).congr rfl rfl rfl id fun _ => gone.1) ?_
      exact fun arrived ends waiting streaming => ⟨_, _, streaming.hangUp ending⟩
    next => cases taken
  | receive conn read =>
    simp only [talkStep, Option.ite_none_right_eq_some, Option.some.injEq] at taken
    obtain ⟨-, rfl⟩ := taken
    have proper := sound.proper conn
    obtain ⟨entered, sent, hungUp, keyed, keyboard, typing⟩ :=
      childTurn_sent (talk.clients conn) read
    refine sound.setClient (proper.congr entered keyed keyboard (typing ▸ id) ?_) ?_
    · rw [hungUp, typing]
      exact proper.quit
    · exact fun arrived ends waiting streaming => ⟨waiting, streaming.congr entered sent hungUp⟩
  | lost conn count =>
    simp only [talkStep, Option.ite_none_right_eq_some, Option.some.injEq] at taken
    obtain ⟨-, rfl⟩ := taken
    have proper := sound.proper conn
    exact sound.setClient (proper.congr rfl rfl rfl id proper.quit)
      fun arrived ends waiting streaming => ⟨waiting, streaming.congr rfl rfl rfl⟩
  | parentKilled conn =>
    obtain rfl := Option.some.inj taken
    exact sound.setClient ((sound.proper conn).congr rfl rfl rfl (fun typing => by cases typing)
      fun _ => rfl) fun arrived ends waiting streaming => ⟨waiting, streaming.congr rfl rfl rfl⟩
  | childKilled conn =>
    obtain rfl := Option.some.inj taken
    have proper := sound.proper conn
    exact sound.setClient (proper.congr rfl rfl rfl id proper.quit)
      fun arrived ends waiting streaming => ⟨waiting, streaming.congr rfl rfl rfl⟩

theorem initial (limit : Nat) (system : SystemDescriptors) : Sound limit (initialTalk system) where
  routed := routed_initial system
  proper conn :=
    { whole := by simp [initialTalk, newClient]
      typed := ⟨[], rfl, fun _ => rfl⟩
      quit := by simp [initialTalk, newClient] }
  streams conn _ := ⟨[], [], [],
    { inbox := rfl
      finished := by simp
      hung := by simp [initialTalk, newClient]
      complete := fun _ => rfl
      lines := rfl
      underway := rfl }⟩

end Sound

end Akiso.Minitalk
