import Akiso.Minitalk.PromptBuffer
import Akiso.Minitalk.Prompting
import Akiso.Minitalk.ReceiveLoop
import Akiso.Minitalk.Routing

set_option autoImplicit false

namespace Akiso.Minitalk

/-- A client: its standard input, the lines its parent has sent, what is under way in the two
directions of its socket, and what its child has written to the terminal. -/
structure Client where
  keyboard : List ReadOutcome
  keyed : List UInt8
  entered : List (List UInt8)
  sent : List UInt8
  typing : Bool
  pending : List UInt8
  receiving : Bool
  errno : Nat
  output : List UInt8
  hungUp : Bool

def newClient : Client :=
  { keyboard := [], keyed := [], entered := [], sent := [], typing := true, pending := []
    receiving := true, errno := 0, output := [], hungUp := false }

def Client.type (client : Client) (outcomes : List ReadOutcome) : Client :=
  { client with
    keyboard := client.keyboard ++ outcomes
    keyed := client.keyed ++ bytesOf outcomes }

-- One turn of the parent's loop; none while its read_line is blocked. The child is reaped by the
-- waitpid behind the write.
def parentTurn (client : Client) (reaped : Bool) : Option Client :=
  if client.typing = true ∧ (reaped = true → client.receiving = false) then
    (clientReadLine clientBufferSize [] client.keyboard).map fun (line, rest) =>
      match line with
      | some (first :: more) =>
        { client with
          keyboard := rest
          entered := client.entered ++ [first :: more]
          sent := client.sent ++ first :: more
          typing := !reaped }
      | _ => { client with keyboard := rest, typing := false }
  else none

def Client.Gone (client : Client) : Prop :=
  client.typing = false ∧ client.receiving = false

instance (client : Client) : Decidable client.Gone :=
  inferInstanceAs (Decidable (_ ∧ _))

def Client.Offers (client : Client) (closed : Prop) : ServerRead → Prop
  | .data received => received.bytes <+: client.pending
  | .closed => client.pending = [] ∧ closed
  | .failed _ => True

instance (client : Client) (closed : Prop) [Decidable closed] :
    ∀ read, Decidable (client.Offers closed read)
  | .data received => inferInstanceAs (Decidable (received.bytes <+: client.pending))
  | .closed => inferInstanceAs (Decidable (client.pending = [] ∧ closed))
  | .failed _ => isTrue True.intro

def childTurn (client : Client) (read : ServerRead) : Client :=
  match receiveLoop client.errno client.output [read] with
  | .reading output =>
    { client with
      output
      errno := read.errno client.errno
      pending := client.pending.drop read.bytes.length }
  | .left output _ => { client with output, receiving := false }

structure Talk where
  server : Server
  clients : ConnId → Client
  killed : Bool

/-- In sigpipe the write of a server's step kills the server; in lost bytes under way are discarded.
-/
inductive TalkLabel where
  | server (label : ServerLabel)
  | sigpipe (conn : ConnId) (label : ServerLabel)
  | keyed (conn : ConnId) (outcomes : List ReadOutcome)
  | enter (conn : ConnId) (reaped : Bool)
  | deliver (conn : ConnId) (count : Nat)
  | hangUp (conn : ConnId) (outcome : ReadOutcome)
  | receive (conn : ConnId) (read : ServerRead)
  | lost (conn : ConnId) (count : Nat)
  | parentKilled (conn : ConnId)
  | childKilled (conn : ConnId)
  deriving DecidableEq

def greeting : List UInt8 := asciiText "Enter login\n"

def promptText (entries : List (Slot × List UInt8)) : List UInt8 :=
  (selectUserText :: entries.map fun entry => entryText entry.1 entry.2).flatten

def ServerEvent.shownTo (conn : ConnId) : ServerEvent → List UInt8
  | .accepted other stored => if other = conn ∧ stored = true then greeting else []
  | .forwarded _ target bytes => if target = some conn then bytes else []
  | .prompted target entries => if target = some conn then promptText entries else []
  | _ => []

def screenOf (conn : ConnId) (events : List ServerEvent) : List UInt8 :=
  events.reverse.flatMap (ServerEvent.shownTo conn)

def promptSent (server : Server) (slot : Slot) : List UInt8 :=
  ((choiceSent (offerChoice server slot)).getD []).map fun cell => cell.getD 0

def serverSent (server next : Server) (label : ServerLabel) (conn : ConnId) : List UInt8 :=
  match server.phase.promptTurn label with
  | some (slot, writable) =>
    let user := server.loggedIn slot
    if user.fd ∈ writable ∧ user.toFd = fdAwaiting ∧ server.connection user.fd = some conn then
      promptSent server slot
    else []
  | none => screenOf conn (next.events.take (next.events.length - server.events.length))

-- What arrives comes from the clients, and select reports only what can be read.
def Talk.Ready (talk : Talk) : ServerLabel → Prop
  | .arrive _ _ => False
  | .ready readable _ => ∀ fd ∈ readable, ∀ conn ∈ talk.server.connection fd,
      talk.server.inbox conn ≠ []
  | _ => True

instance (talk : Talk) : ∀ label, Decidable (talk.Ready label)
  | .arrive _ _ => isFalse id
  | .ready readable _ => inferInstanceAs (Decidable (∀ fd ∈ readable,
      ∀ conn ∈ talk.server.connection fd, talk.server.inbox conn ≠ []))
  | .accept _ => isTrue True.intro
  | .interrupted => isTrue True.intro
  | .timeout => isTrue True.intro
  | .serve => isTrue True.intro
  | .prompt => isTrue True.intro

-- One end of the connection is no more: nothing gets through to the client that is not already
-- under way.
def Talk.Ended (talk : Talk) (conn : ConnId) : Prop :=
  (talk.clients conn).Gone ∨ .closed conn ∈ talk.server.events ∨ talk.killed = true

instance (talk : Talk) (conn : ConnId) : Decidable (talk.Ended conn) :=
  inferInstanceAs (Decidable (_ ∨ _ ∨ _))

def Talk.setClient (talk : Talk) (conn : ConnId) (client : Client) : Talk :=
  { talk with clients := Function.update talk.clients conn client }

def Talk.arrive (talk : Talk) (conn : ConnId) (outcomes : List ReadOutcome) (client : Client) :
    Option Talk :=
  if talk.killed = false then
    (serverStep talk.server (.arrive conn outcomes)).map fun next =>
      { talk.setClient conn client with server := next }
  else none

def Talk.written (talk : Talk) (next : Server) (label : ServerLabel) (conn : ConnId) : Client :=
  if talk.Ended conn then talk.clients conn
  else
    { talk.clients conn with
      pending := (talk.clients conn).pending ++ serverSent talk.server next label conn }

def talkStep (talk : Talk) : TalkLabel → Option Talk
  | .server label =>
    if talk.killed = false ∧ talk.Ready label then
      (serverStep talk.server label).map fun next =>
        { talk with server := next, clients := talk.written next label }
    else none
  | .sigpipe conn label =>
    -- Nothing handles SIGPIPE. The first write to a client that is gone may still be taken.
    if talk.killed = false ∧ talk.Ready label ∧ (talk.clients conn).Gone then
      (serverStep talk.server label).bind fun next =>
        if serverSent talk.server next label conn = [] then none
        else some { talk with killed := true }
    else none
  | .keyed conn outcomes => some (talk.setClient conn ((talk.clients conn).type outcomes))
  | .enter conn reaped => (parentTurn (talk.clients conn) reaped).map (talk.setClient conn)
  | .deliver conn count =>
    let client := talk.clients conn
    if client.hungUp = false then
      talk.arrive conn ((client.sent.take count).map .byte)
        { client with sent := client.sent.drop count }
    else none
  | .hangUp conn outcome =>
    let client := talk.clients conn
    -- A connection that is reset may lose what was under way.
    if client.Gone ∧ (outcome = .error ∨ outcome = .closed ∧ client.sent = []) then
      talk.arrive conn [outcome] { client with hungUp := true }
    else none
  | .receive conn read =>
    let client := talk.clients conn
    if client.receiving = true ∧
        client.Offers (.closed conn ∈ talk.server.events ∨ talk.killed = true) read then
      some (talk.setClient conn (childTurn client read))
    else none
  | .lost conn count =>
    let client := talk.clients conn
    if talk.Ended conn then
      some (talk.setClient conn { client with pending := client.pending.take count })
    else none
  | .parentKilled conn => some (talk.setClient conn { talk.clients conn with typing := false })
  | .childKilled conn => some (talk.setClient conn { talk.clients conn with receiving := false })

def initialTalk (system : SystemDescriptors) : Talk :=
  { server := initialServer system, clients := fun _ => newClient, killed := false }

def typedLine : List ReadOutcome → List UInt8
  | .byte value :: rest => if value = newline then [value] else value :: typedLine rest
  | _ => []

def WholeLine (limit : Nat) (line : List UInt8) : Prop :=
  line.getLast? = some newline ∧ newline ∉ line.dropLast ∧ line.length < limit

instance (limit : Nat) (line : List UInt8) : Decidable (WholeLine limit line) :=
  inferInstanceAs (Decidable (_ ∧ _))

def EnteredWithin (limit : Nat) (talk : Talk) : TalkLabel → Prop
  | .enter conn _ => typedLine (talk.clients conn).keyboard ≠ [] →
      WholeLine limit (typedLine (talk.clients conn).keyboard)
  | _ => True

instance (limit : Nat) (talk : Talk) : ∀ label, Decidable (EnteredWithin limit talk label)
  | .enter conn _ => inferInstanceAs (Decidable (typedLine (talk.clients conn).keyboard ≠ [] →
      WholeLine limit (typedLine (talk.clients conn).keyboard)))
  | .server _ => isTrue True.intro
  | .sigpipe _ _ => isTrue True.intro
  | .keyed _ _ => isTrue True.intro
  | .deliver _ _ => isTrue True.intro
  | .hangUp _ _ => isTrue True.intro
  | .receive _ _ => isTrue True.intro
  | .lost _ _ => isTrue True.intro
  | .parentKilled _ => isTrue True.intro
  | .childKilled _ => isTrue True.intro

def RoomyPrompt (talk : Talk) : TalkLabel → Prop
  | .server label => ∀ turn ∈ talk.server.phase.promptTurn label,
      13 + listedLength (promptEntries talk.server turn.1) < promptCapacity
  | _ => True

instance (talk : Talk) : ∀ label, Decidable (RoomyPrompt talk label)
  | .server label => inferInstanceAs (Decidable (∀ turn ∈ talk.server.phase.promptTurn label,
      13 + listedLength (promptEntries talk.server turn.1) < promptCapacity))
  | .sigpipe _ _ => isTrue True.intro
  | .keyed _ _ => isTrue True.intro
  | .enter _ _ => isTrue True.intro
  | .deliver _ _ => isTrue True.intro
  | .hangUp _ _ => isTrue True.intro
  | .receive _ _ => isTrue True.intro
  | .lost _ _ => isTrue True.intro
  | .parentKilled _ => isTrue True.intro
  | .childKilled _ => isTrue True.intro

structure Client.Proper (limit : Nat) (client : Client) : Prop where
  whole : ∀ line ∈ client.entered, WholeLine limit line
  typed : ∃ rest, client.keyed = client.entered.flatten ++ rest ∧
    (client.typing = true → rest = bytesOf client.keyboard)
  quit : client.hungUp = true → client.typing = false

variable {client nextClient : Client} {outcomes rest : List ReadOutcome} {line : List UInt8}
  {limit n : Nat}

theorem clientReadLine_consumes {stored : List UInt8} {result : Option (List UInt8)}
    (returned : clientReadLine n stored outcomes = some (result, rest)) :
    bytesOf outcomes = typedLine outcomes ++ bytesOf rest := by
  fun_induction clientReadLine n stored outcomes with
  | case1 => cases returned
  | case2 | case3 | case4 =>
    cases returned
    rfl
  | case5 =>
    cases returned
    simp [bytesOf, typedLine]
  | case6 stored value rest more ih => simpa [bytesOf, typedLine, more] using ih returned

theorem clientReadLine_takes {stored bytes : List UInt8} (fits : stored.length ≤ n - 1)
    (returned : clientReadLine n stored outcomes = some (some bytes, rest)) :
    bytes = (stored ++ typedLine outcomes).take (n - 1) := by
  fun_induction clientReadLine n stored outcomes with
  | case1 => cases returned
  | case2 => cases returned
  | case3 => cases returned
  | case4 =>
    cases returned
    simp [typedLine, List.take_of_length_le fits]
  | case5 =>
    cases returned
    simp only [typedLine, if_true]
    exact store_eq n _ newline fits
  | case6 stored value rest more ih =>
    have next := ih (store_length value fits) returned
    rw [take_store n stored _ value fits] at next
    simpa [typedLine, more] using next

theorem WholeLine.split (whole : WholeLine limit line) :
    ∃ body, line = body ++ [newline] ∧ newline ∉ body := by
  have ends := List.dropLast_append_getLast? newline whole.1
  exact ⟨line.dropLast, ends.symm, whole.2.1⟩

theorem WholeLine.ne_nil (whole : WholeLine limit line) : line ≠ [] := by
  rintro rfl
  cases whole.1

theorem parentTurn_cases {reaped : Bool} (small : limit ≤ clientBufferSize)
    (proper : typedLine client.keyboard ≠ [] → WholeLine limit (typedLine client.keyboard))
    (turn : parentTurn client reaped = some nextClient) :
    client.typing = true ∧
      ((∃ line rest, WholeLine limit line ∧ bytesOf client.keyboard = line ++ bytesOf rest ∧
        nextClient =
          { client with
            keyboard := rest
            entered := client.entered ++ [line]
            sent := client.sent ++ line
            typing := !reaped }) ∨
        ∃ rest, nextClient = { client with keyboard := rest, typing := false }) := by
  unfold parentTurn at turn
  split at turn
  next typing =>
    refine ⟨typing.1, ?_⟩
    obtain ⟨⟨result, rest⟩, returned, turn⟩ := Option.map_eq_some_iff.mp turn
    dsimp only at turn
    split at turn
    next first more =>
      have takes := clientReadLine_takes (Nat.zero_le _) returned
      have present : typedLine client.keyboard ≠ [] := by
        intro nothing
        simp [nothing] at takes
      have whole := proper present
      have fits : (typedLine client.keyboard).length ≤ clientBufferSize - 1 := by
        have short := whole.2.2
        omega
      rw [List.nil_append, List.take_of_length_le fits] at takes
      refine .inl ⟨first :: more, rest, takes ▸ whole, ?_, turn.symm⟩
      rw [takes]
      exact clientReadLine_consumes returned
    next => exact .inr ⟨rest, turn.symm⟩
  next => cases turn

theorem childTurn_sent (client : Client) (read : ServerRead) :
    (childTurn client read).entered = client.entered ∧ (childTurn client read).sent = client.sent ∧
      (childTurn client read).hungUp = client.hungUp ∧
      (childTurn client read).keyed = client.keyed ∧
      (childTurn client read).keyboard = client.keyboard ∧
      (childTurn client read).typing = client.typing := by
  unfold childTurn
  split <;> exact ⟨rfl, rfl, rfl, rfl, rfl, rfl⟩

namespace Client.Proper

theorem congr (proper : client.Proper limit) (entered : nextClient.entered = client.entered)
    (keyed : nextClient.keyed = client.keyed) (keyboard : nextClient.keyboard = client.keyboard)
    (typing : nextClient.typing = true → client.typing = true)
    (quit : nextClient.hungUp = true → nextClient.typing = false) : nextClient.Proper limit where
  whole := entered ▸ proper.whole
  typed := by
    obtain ⟨rest, split, still⟩ := proper.typed
    rw [entered, keyed, keyboard]
    exact ⟨rest, split, fun typed => still (typing typed)⟩
  quit := quit

theorem type (proper : client.Proper limit) (outcomes : List ReadOutcome) :
    (client.type outcomes).Proper limit where
  whole := proper.whole
  typed := by
    obtain ⟨rest, split, still⟩ := proper.typed
    refine ⟨rest ++ bytesOf outcomes, ?_, fun typing => ?_⟩
    · simp [Client.type, split]
    · simp [Client.type, still typing]
  quit := proper.quit

theorem enter {reaped : Bool} (proper : client.Proper limit) (small : limit ≤ clientBufferSize)
    (line : typedLine client.keyboard ≠ [] → WholeLine limit (typedLine client.keyboard))
    (turn : parentTurn client reaped = some nextClient) : nextClient.Proper limit := by
  obtain ⟨typing, ⟨line, rest, whole, typed, rfl⟩ | ⟨rest, rfl⟩⟩ := parentTurn_cases small line turn
  · obtain ⟨left, split, still⟩ := proper.typed
    refine ⟨?whole, ⟨bytesOf rest, ?_, fun _ => rfl⟩, fun hungUp => ?_⟩
    case whole =>
      intro other member
      rcases List.mem_append.mp member with old | new
      · exact proper.whole other old
      · exact List.mem_singleton.mp new ▸ whole
    · rw [split, still typing, typed]
      simp
    · rw [proper.quit hungUp] at typing
      cases typing
  · obtain ⟨left, split, -⟩ := proper.typed
    exact ⟨proper.whole, ⟨left, split, fun typing => by cases typing⟩, fun _ => rfl⟩

end Client.Proper

end Akiso.Minitalk
