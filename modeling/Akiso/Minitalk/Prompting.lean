import Akiso.Minitalk.Retained

set_option autoImplicit false

namespace Akiso.Minitalk

open Transition

def Company (server : Server) (slot : Slot) : Prop :=
  ∃ other, other ≠ slot ∧ (server.loggedIn other).fd ≠ 0 ∧ (server.loggedIn other).name ≠ none

instance (server : Server) (slot : Slot) : Decidable (Company server slot) :=
  inferInstanceAs (Decidable (∃ other, other ≠ slot ∧ _ ∧ _))

def listsTo (conn : Option ConnId) (events : List ServerEvent) : Nat :=
  events.countP fun event =>
    match event with
    | .prompted receiver _ => receiver = conn
    | _ => false

/-- One stay of a user in FD_AWAITING: `mark` events came before it, and `asked` is whether the
prompting loop has come to the user since, another user being named. -/
structure Stay where
  mark : Nat
  asked : Bool
  deriving DecidableEq, Repr

structure Reading where
  company : Bool
  lists : Nat
  deriving DecidableEq, Repr

/-- The server, the stay each slot is in, and what was found when a selection was read. -/
structure Watched where
  server : Server
  stays : Slot → Stay
  readings : List Reading

def Server.awaits (server : Server) (slot : Slot) : Prop :=
  (server.loggedIn slot).toFd = fdAwaiting

instance (server : Server) (slot : Slot) : Decidable (server.awaits slot) :=
  inferInstanceAs (Decidable (_ = fdAwaiting))

def Watched.lists (watched : Watched) (slot : Slot) : Nat :=
  let events := watched.server.events
  listsTo (watched.server.connection (watched.server.loggedIn slot).fd)
    (events.take (events.length - (watched.stays slot).mark))

def Phase.promptTurn : Phase → ServerLabel → Option (Slot × FdSet)
  | .prompting (slot :: _) writable, .prompt => some (slot, writable)
  | _, _ => none

def Phase.readTurn : Phase → ServerLabel → Option (Slot × FdSet)
  | .serving (slot :: _) readable _, .serve => some (slot, readable)
  | _, _ => none

def readsSelection (server : Server) (label : ServerLabel) : Option Slot :=
  match server.phase.readTurn label with
  | some (slot, readable) =>
    let user := server.loggedIn slot
    if user.fd ≠ 0 ∧ user.fd ∈ readable ∧ user.name ≠ none ∧ user.toFd = fdAwaiting then
      match readUser server slot false with
      | some (_, some _) => some slot
      | _ => none
    else none
  | none => none

def stayAfter (watched : Watched) (label : ServerLabel) (next : Server) (slot : Slot) : Stay :=
  if next.awaits slot ∧ ¬ watched.server.awaits slot then
    { mark := next.events.length, asked := false }
  else
    match watched.server.phase.promptTurn label with
    | some (turn, _) =>
      if turn = slot ∧ Company watched.server slot then { watched.stays slot with asked := true }
      else watched.stays slot
    | none => watched.stays slot

def readingAfter (watched : Watched) (label : ServerLabel) : List Reading :=
  match readsSelection watched.server label with
  | some slot =>
    { company := Company watched.server slot, lists := watched.lists slot } :: watched.readings
  | none => watched.readings

def watchedStep (watched : Watched) (label : ServerLabel) : Option Watched :=
  (serverStep watched.server label).map fun next =>
    { server := next
      stays := stayAfter watched label next
      readings := readingAfter watched label }

def initialWatched (system : SystemDescriptors) : Watched :=
  { server := initialServer system, stays := fun _ => { mark := 0, asked := false }
    readings := [] }

structure PromptedOnce (watched : Watched) : Prop where
  unrepeated : ∀ slot, watched.server.awaits slot → watched.lists slot ≤ 1
  timely : ∀ reading ∈ watched.readings,
    reading.lists ≤ 1 ∧ (reading.company = true → reading.lists = 1)

-- Of the turns of the prompting loop that come to an awaiting user while another one is named, the
-- first of the stay finds the user's own descriptor in the writable set and the later ones do not;
-- and the selection is not read before the first such turn while another user is named.
def PromptInTime (watched : Watched) (label : ServerLabel) : Prop :=
  (∀ turn ∈ watched.server.phase.promptTurn label, watched.server.awaits turn.1 →
    Company watched.server turn.1 →
      ((watched.server.loggedIn turn.1).fd ∈ turn.2 ↔ (watched.stays turn.1).asked = false)) ∧
  ∀ slot ∈ readsSelection watched.server label, Company watched.server slot →
    (watched.stays slot).asked = true

instance (watched : Watched) (label : ServerLabel) : Decidable (PromptInTime watched label) :=
  inferInstanceAs (Decidable ((∀ turn ∈ _, _ → _ → (_ ↔ _)) ∧ ∀ slot ∈ _, _ → _))

variable {server next : Server} {slot : Slot} {label : ServerLabel}

theorem promptEntries_eq_nil : promptEntries server slot = [] ↔ ¬ Company server slot := by
  simp only [promptEntries, List.filterMap_eq_nil_iff, List.mem_finRange, forall_const, Company,
    not_exists]
  refine forall_congr' fun other => ?_
  by_cases same : other = slot
  · simp [same]
  · by_cases gone : (server.loggedIn other).fd = 0
    · simp [gone]
    · simp [same, gone]

theorem listsTo_append (conn : Option ConnId) (newer older : List ServerEvent) :
    listsTo conn (newer ++ older) = listsTo conn newer + listsTo conn older :=
  List.countP_append

def writesList (server : Server) (slot : Slot) (writable : FdSet) : Prop :=
  (server.loggedIn slot).fd ∈ writable ∧ server.awaits slot ∧ Company server slot

instance (server : Server) (slot : Slot) (writable : FdSet) :
    Decidable (writesList server slot writable) :=
  inferInstanceAs (Decidable (_ ∧ _ ∧ _))

def listsWritten (server : Server) (label : ServerLabel) (conn : Option ConnId) : Nat :=
  match server.phase.promptTurn label with
  | some (slot, writable) =>
    if writesList server slot writable ∧ server.connection (server.loggedIn slot).fd = conn then 1
    else 0
  | none => 0

theorem promptSlot_eq (server : Server) (slot : Slot) (writable : FdSet) :
    promptSlot server slot writable =
      if writesList server slot writable then
        server.log (.prompted (server.connection (server.loggedIn slot).fd)
          (promptEntries server slot))
      else server := by
  by_cases company : Company server slot
  · have listed : promptEntries server slot ≠ [] := fun empty =>
      promptEntries_eq_nil.mp empty company
    simp only [promptSlot, listed, company, and_true, if_false, Server.awaits, writesList]
  · simp [promptSlot, promptEntries_eq_nil.mpr company, company, writesList]

theorem serve_silent (routed : Routed server) {readable writable left : FdSet}
    (served : serveSlot server slot readable writable = some (next, left)) :
    ∃ added, next.events = added ++ server.events ∧ ∀ conn, listsTo conn added = 0 := by
  rcases serveSlot_cases (routed.stored slot) served with
    ⟨rfl, _⟩ | ⟨conn, line, rest, present, _, _, _, turn⟩
  · exact ⟨[], rfl, fun _ => rfl⟩
  · have consumed := routed.consume conn rest
    obtain ⟨bytes, read⟩ : ∃ bytes,
        (consume server conn rest).events = .consumed conn bytes :: server.events := ⟨_, rfl⟩
    have gone : ∃ added, (removeUser (consume server conn rest) slot).events =
        added ++ server.events ∧ ∀ conn, listsTo conn added = 0 := by
      obtain ⟨other, connected⟩ := consumed.stored slot present
      refine ⟨[.closed other, .consumed conn bytes], ?_, fun _ => rfl⟩
      simp only [removeUser, connected, read]
      rfl
    cases turn with
    | removed => exact gone
    | named name _ => exact ⟨[.consumed conn bytes], read, fun _ => rfl⟩
    | selected buff _ _ =>
      rcases consumed.selectTarget_cases present buff with
        removed | ⟨_, sender, receiver, _, _, _, _, chosen⟩
      · rw [removed]
        exact gone
      · rw [chosen]
        refine ⟨[.selected sender receiver, .consumed conn bytes], ?_, fun _ => rfl⟩
        simp only [Server.log, Server.setUser, read]
        rfl
    | @forwarded line _ _ _ =>
      obtain ⟨sender, target, sent⟩ : ∃ sender target,
          (forwardLine (consume server conn rest) slot line).events =
            .forwarded sender target line :: (consume server conn rest).events := ⟨_, _, rfl⟩
      exact ⟨[.forwarded sender target line, .consumed conn bytes], by rw [sent, read]; rfl,
        fun _ => rfl⟩

theorem step_prompts (routed : Routed server) (taken : serverStep server label = some next) :
    ∃ added, next.events = added ++ server.events ∧
      ∀ conn, listsTo conn added = listsWritten server label conn := by
  have silent : server.phase.promptTurn label = none →
      (∃ added, next.events = added ++ server.events ∧ ∀ conn, listsTo conn added = 0) →
      ∃ added, next.events = added ++ server.events ∧
        ∀ conn, listsTo conn added = listsWritten server label conn := by
    intro noTurn found
    simp only [listsWritten, noTurn]
    exact found
  have quiet : ∀ phase : Phase, (∀ label, label ≠ ServerLabel.prompt →
    phase.promptTurn label = none) := by
    intro phase label other
    cases label <;> simp_all [Phase.promptTurn]
  cases serverStep_cases taken with
  | received conn outcomes _ =>
    refine silent (quiet _ _ nofun) ⟨_, rfl, fun _ => ?_⟩
    simp [listsTo, List.countP_eq_zero]
  | accepted peer _ _ =>
    refine silent (quiet _ _ nofun) ?_
    rcases acceptPeer_cases server peer with ⟨slot, _, stored⟩ | ⟨_, dropped⟩
    · rw [stored]
      exact ⟨[.accepted _ true], rfl, fun _ => rfl⟩
    · rw [dropped]
      exact ⟨[.accepted _ false], rfl, fun _ => rfl⟩
  | interrupted _ => exact silent (quiet _ _ nofun) ⟨[], rfl, fun _ => rfl⟩
  | timedOut _ _ _ => exact silent (quiet _ _ nofun) ⟨[], rfl, fun _ => rfl⟩
  | readied _ _ _ _ _ _ _ => exact silent (quiet _ _ nofun) ⟨[], rfl, fun _ => rfl⟩
  | served slot rest readable writable left next _ turn =>
    obtain ⟨added, events, none⟩ := serve_silent routed turn
    exact silent (quiet _ _ nofun) ⟨added, events, none⟩
  | allServed _ _ _ => exact silent (quiet _ _ nofun) ⟨[], rfl, fun _ => rfl⟩
  | prompted slot rest writable prompting =>
    simp only [prompting, Phase.promptTurn, promptSlot_eq, listsWritten]
    split
    next writes =>
      refine ⟨[.prompted _ _], rfl, fun conn => ?_⟩
      simp [listsTo, writes, List.countP_cons]
    next idle =>
      refine ⟨[], rfl, fun conn => ?_⟩
      simp [listsTo, idle]
  | allPrompted writable prompting =>
    refine silent ?_ ⟨[], rfl, fun _ => rfl⟩
    rw [prompting]
    rfl

theorem Routed.awaits_present (routed : Routed server) (awaits : server.awaits slot) :
    (server.loggedIn slot).fd ≠ 0 := by
  refine routed.fd_ne_zero ?_
  rw [show (server.loggedIn slot).toFd = fdAwaiting from awaits]
  decide

theorem awaits_connection (routed : Routed server) (taken : serverStep server label = some next)
    (before : server.awaits slot) (after : next.awaits slot) :
    next.connection (next.loggedIn slot).fd = server.connection (server.loggedIn slot).fd := by
  have present := routed.awaits_present before
  cases step_moves routed taken with
  | kept _ connections fds => rw [fds, connections]
  | removed gone _ connections fds =>
    have different : slot ≠ gone := by
      rintro rfl
      have still := (routed.step taken).awaits_present after
      exact still (by rw [fds, if_pos rfl])
    have apart : (server.loggedIn slot).fd ≠ (server.loggedIn gone).fd := by
      intro same
      exact different (routed.sameSlot (same ▸ present) same)
    rw [fds, if_neg different, connections, if_neg apart]
  | seated peer seat free fresh connections fds =>
    have different : slot ≠ seat := fun same => present (same ▸ free)
    rw [fds, if_neg different, connections, if_neg (routed.unheld fresh slot)]
  | dropped peer _ fresh connections fds =>
    rw [fds, connections, if_neg (routed.unheld fresh slot)]

structure Prompted (watched : Watched) : Prop where
  routed : Routed watched.server
  marked : ∀ slot, (watched.stays slot).mark ≤ watched.server.events.length
  counted : ∀ slot, watched.server.awaits slot →
    watched.lists slot = if (watched.stays slot).asked then 1 else 0
  timely : ∀ reading ∈ watched.readings,
    reading.lists ≤ 1 ∧ (reading.company = true → reading.lists = 1)

theorem Routed.listsWritten_eq (routed : Routed server) (present : (server.loggedIn slot).fd ≠ 0) :
    listsWritten server label (server.connection (server.loggedIn slot).fd) =
      match server.phase.promptTurn label with
      | some (turn, writable) => if turn = slot ∧ writesList server turn writable then 1 else 0
      | none => 0 := by
  unfold listsWritten
  split
  next turn writable _ =>
    have same : writesList server turn writable →
        (server.connection (server.loggedIn turn).fd =
          server.connection (server.loggedIn slot).fd ↔ turn = slot) := by
      intro writes
      constructor
      · intro connected
        obtain ⟨conn, found⟩ := routed.stored slot present
        exact routed.sameSlot present (routed.apart _ _ conn (connected.trans found) found)
      · rintro rfl
        rfl
    by_cases writes : writesList server turn writable
    · simp only [writes, same writes, true_and, and_true]
    · simp only [writes, false_and, and_false, if_false]
  next => rfl

theorem lists_step {watched after : Watched} (prompted : Prompted watched)
    (taken : watchedStep watched label = some after) (before : watched.server.awaits slot)
    (still : after.server.awaits slot) :
    after.lists slot =
      listsWritten watched.server label
        (watched.server.connection (watched.server.loggedIn slot).fd) + watched.lists slot := by
  obtain ⟨next, stepped, rfl⟩ := Option.map_eq_some_iff.mp taken
  obtain ⟨added, events, written⟩ := step_prompts prompted.routed stepped
  have mark : (stayAfter watched label next slot).mark = (watched.stays slot).mark := by
    unfold stayAfter
    rw [if_neg fun starts => starts.2 before]
    split
    next =>
      split
      next => rfl
      next => rfl
    next => rfl
  have earlier := prompted.marked slot
  have count : (added ++ watched.server.events).length - (watched.stays slot).mark =
      added.length + (watched.server.events.length - (watched.stays slot).mark) := by
    rw [List.length_append]
    omega
  simp only [Watched.lists, mark, events, count, List.take_length_add_append, listsTo_append,
    awaits_connection prompted.routed stepped before still, written]

theorem readsSelection_awaits (read : readsSelection server label = some slot) :
    server.awaits slot := by
  unfold readsSelection at read
  split at read
  next turn readable _ =>
    dsimp only at read
    split at read
    next facts =>
      split at read
      next =>
        cases read
        exact facts.2.2.2
      next => cases read
    next => cases read
  next => cases read

theorem Prompted.counted_step {watched after : Watched} (prompted : Prompted watched)
    (inTime : PromptInTime watched label) (taken : watchedStep watched label = some after)
    (still : after.server.awaits slot) :
    after.lists slot = if (after.stays slot).asked then 1 else 0 := by
  obtain ⟨next, stepped, shape⟩ := Option.map_eq_some_iff.mp taken
  by_cases before : watched.server.awaits slot
  next =>
    have present := prompted.routed.awaits_present before
    rw [lists_step prompted taken before still, prompted.routed.listsWritten_eq present,
      prompted.counted slot before]
    subst shape
    simp only [stayAfter, before, not_true_eq_false, and_false, if_false]
    cases turned : watched.server.phase.promptTurn label with
    | none => simp
    | some turn =>
      obtain ⟨turn, writable⟩ := turn
      by_cases own : turn = slot ∧ Company watched.server slot
      · obtain ⟨rfl, company⟩ := own
        have offered := inTime.1 (turn, writable) turned before company
        by_cases asked : (watched.stays turn).asked = true
        · have absent : (watched.server.loggedIn turn).fd ∉ writable := by
            simp [offered, asked]
          simp [writesList, absent, asked, company]
        · have present : (watched.server.loggedIn turn).fd ∈ writable := by
            simpa [offered] using asked
          simp [writesList, present, asked, company, before]
      · have silent : ¬ (turn = slot ∧ writesList watched.server turn writable) := by
          rintro ⟨rfl, writes⟩
          exact own ⟨rfl, writes.2.2⟩
        simp [silent, own]
  next =>
    subst shape
    have fresh : stayAfter watched label next slot =
        { mark := next.events.length, asked := false } := if_pos ⟨still, before⟩
    simp [Watched.lists, fresh, listsTo]

theorem Prompted.step {watched after : Watched} (prompted : Prompted watched)
    (inTime : PromptInTime watched label) (taken : watchedStep watched label = some after) :
    Prompted after := by
  obtain ⟨next, stepped, shape⟩ := Option.map_eq_some_iff.mp taken
  refine ⟨?routed, ?marked, fun slot still => prompted.counted_step inTime taken still, ?timely⟩
  case routed =>
    subst shape
    exact prompted.routed.step stepped
  case marked =>
    obtain ⟨added, events, _⟩ := step_prompts prompted.routed stepped
    subst shape
    intro slot
    have longer : watched.server.events.length ≤ next.events.length := by simp [events]
    have earlier := (prompted.marked slot).trans longer
    simp only [stayAfter]
    split
    next => exact Nat.le_refl _
    next =>
      split
      next =>
        split
        next => exact earlier
        next => exact earlier
      next => exact earlier
  case timely =>
    subst shape
    intro reading member
    simp only [readingAfter] at member
    split at member
    next slot read =>
      rcases List.mem_cons.mp member with rfl | old
      · have counted := prompted.counted slot (readsSelection_awaits read)
        simp only [decide_eq_true_eq]
        refine ⟨?_, fun company => ?_⟩
        · rw [counted]
          split
          next => exact Nat.le_refl _
          next => exact Nat.zero_le _
        · rw [counted, if_pos (inTime.2 slot read company)]
      · exact prompted.timely reading old
    next => exact prompted.timely reading member

theorem prompted_initial (system : SystemDescriptors) : Prompted (initialWatched system) :=
  { routed := routed_initial system
    marked := fun _ => Nat.zero_le _
    counted := fun slot awaits => absurd awaits (by
      simp [Server.awaits, initialWatched, initialServer, noUser, fdUnassigned, fdAwaiting])
    timely := nofun }

theorem prompted_once (system : SystemDescriptors) (watched : Watched)
    (reached : Reaches watchedStep PromptInTime (initialWatched system) watched) :
    PromptedOnce watched := by
  have prompted := reached.invariant Prompted (prompted_initial system)
    fun _ _ _ prompted inTime taken => prompted.step inTime taken
  refine ⟨fun slot awaits => ?_, prompted.timely⟩
  rw [prompted.counted slot awaits]
  split
  next => exact Nat.le_refl _
  next => exact Nat.zero_le _

def bothLogIn : List ServerLabel :=
  [.accept 4, .timeout, .accept 5, .arrive 0 (typed "ann\n"), .arrive 1 (typed "bob\n"),
    .ready [4, 5] []] ++ wholeScan ++ [.interrupted]

def askBoth : List ServerLabel :=
  bothLogIn ++ .ready [] [4, 5] :: wholeScan ++ [.interrupted]

def answer (conn : ConnId) (text : String) (fd : Nat) : List ServerLabel :=
  [.arrive conn (typed text), .ready [fd] []] ++ wholeScan ++ [.interrupted]

theorem prompted_once_bothAsked :
    let watched := arrival watchedStep PromptInTime (initialWatched plainSystem)
      (askBoth ++ answer 0 "1\n" 4)
    watched.readings = [{ company := true, lists := 1 }] ∧ PromptedOnce watched := by
  intro watched
  refine ⟨by decide +kernel, ?_⟩
  exact prompted_once plainSystem watched (reaches_arrival _)

-- The select of the first round times out; or the other user, having chosen this one, makes the
-- loop find the descriptor writable again.
theorem prompts_fail :
    (∃ watched, run watchedStep (initialWatched plainSystem)
      (bothLogIn ++ [.timeout, .interrupted] ++ answer 0 "1\n" 4) = some watched ∧
        ¬ PromptedOnce watched) ∧
    ∃ watched, run watchedStep (initialWatched plainSystem)
      (askBoth ++ answer 1 "0\n" 5 ++ .ready [] [4] :: wholeScan) = some watched ∧
        ¬ PromptedOnce watched := by
  constructor
  · have never : (run watchedStep (initialWatched plainSystem)
        (bothLogIn ++ [.timeout, .interrupted] ++ answer 0 "1\n" 4)).any (fun watched =>
          watched.readings = [{ company := true, lists := 0 }]) = true := by
      decide +kernel
    obtain ⟨watched, ran, read⟩ := (Option.any_eq_true _ _).mp never
    rw [decide_eq_true_eq] at read
    refine ⟨watched, ran, fun once => ?_⟩
    have timely := once.timely { company := true, lists := 0 } (by simp [read])
    simp at timely
  · have twice : (run watchedStep (initialWatched plainSystem)
        (askBoth ++ answer 1 "0\n" 5 ++ .ready [] [4] :: wholeScan)).any (fun watched =>
          decide (watched.server.awaits 0) && watched.lists 0 = 2) = true := by
      decide +kernel
    obtain ⟨watched, ran, facts⟩ := (Option.any_eq_true _ _).mp twice
    rw [Bool.and_eq_true, decide_eq_true_eq, decide_eq_true_eq] at facts
    refine ⟨watched, ran, fun once => ?_⟩
    have unrepeated := once.unrepeated 0 facts.1
    omega

end Akiso.Minitalk
