import Akiso.Minitalk.Retained

set_option autoImplicit false

namespace Akiso.Minitalk

open Transition

def ServerEvent.writtenTo : ServerEvent → Option (Option ConnId)
  | .forwarded _ target _ => some target
  | .prompted conn _ => some conn
  | _ => none

def writes (events : List ServerEvent) : List (Option ConnId) :=
  events.filterMap ServerEvent.writtenTo

def ServerLabel.serving : ServerLabel → Bool
  | .arrive _ _ => true
  | .serve => true
  | .prompt => true
  | _ => false

def Unwritten (server : Server) (added : List ServerEvent) (fd : Nat) : Prop :=
  ∀ conn, server.connection fd = some conn → some conn ∉ writes added

def Outstanding (server : Server) (added : List ServerEvent) (ready : FdSet) : Phase → Prop
  | .accepting => True
  | .selecting _ _ => False
  | .serving _ _ writable => ∀ fd ∈ writable, fd ∈ ready ∧ Unwritten server added fd
  | .prompting slots writable =>
    slots.Nodup ∧ ∀ slot ∈ slots, (server.loggedIn slot).fd ∈ writable →
      (server.loggedIn slot).fd ∈ ready ∧ Unwritten server added (server.loggedIn slot).fd

structure WrittenOnce (start : Server) (ready : FdSet) (added : List ServerEvent)
    (server : Server) : Prop where
  events : server.events = added ++ start.events
  still : ∀ fd conn, server.connection fd = some conn → start.connection fd = some conn
  once : (writes added).Nodup
  able : ∀ target ∈ writes added, ∃ fd ∈ ready, ∃ conn, target = some conn ∧
    start.connection fd = some conn
  outstanding : Outstanding server added ready server.phase

variable {start server next : Server} {ready writable left : FdSet} {added : List ServerEvent}
  {slot : Slot} {fd : Nat}

theorem writes_append (newer older : List ServerEvent) :
    writes (newer ++ older) = writes newer ++ writes older :=
  List.filterMap_append

theorem serve_writes (routed : Routed server) {readable : FdSet}
    (served : serveSlot server slot readable writable = some (next, left)) :
    ∃ new, next.events = new ++ server.events ∧
      ((left = writable ∧ writes new = []) ∨
        ∃ fd conn, fd ∈ writable ∧ left = fdClr fd writable ∧ server.connection fd = some conn ∧
          writes new = [some conn]) := by
  rcases serveSlot_cases (routed.stored slot) served with
    ⟨rfl, rfl⟩ | ⟨conn, line, rest, present, -, -, -, turn⟩
  · exact ⟨[], rfl, .inl ⟨rfl, rfl⟩⟩
  · have consumed := routed.consume conn rest
    obtain ⟨taken, events⟩ : ∃ taken, (consume server conn rest).events =
        [.consumed conn taken] ++ server.events := ⟨_, rfl⟩
    have gone : ∃ new, (removeUser (consume server conn rest) slot).events = new ++ server.events ∧
        writes new = [] := by
      refine ⟨((consume server conn rest).connection
        ((consume server conn rest).loggedIn slot).fd).toList.map .closed ++
          [.consumed conn taken], ?_, ?_⟩
      · rw [List.append_assoc, ← events]
        rfl
      · cases (consume server conn rest).connection
          ((consume server conn rest).loggedIn slot).fd <;> rfl
    cases turn with
    | removed =>
      obtain ⟨new, shape, silent⟩ := gone
      exact ⟨new, shape, .inl ⟨rfl, silent⟩⟩
    | named name _ => exact ⟨_, events, .inl ⟨rfl, rfl⟩⟩
    | selected buff named _ =>
      rcases consumed.selectTarget_cases present buff with
        removed | ⟨_, sender, receiver, _, _, _, _, chosen⟩
      · obtain ⟨new, shape, silent⟩ := gone
        exact ⟨new, removed ▸ shape, .inl ⟨rfl, silent⟩⟩
      · exact ⟨[.selected sender receiver, .consumed conn taken], chosen ▸ congrArg _ events,
          .inl ⟨rfl, rfl⟩⟩
    | @forwarded line _ forwarding ready =>
      obtain ⟨sender, target, leaves, arrives, -⟩ := routed.routes slot forwarding
      refine ⟨[.forwarded (some sender) (some target) line, .consumed conn taken], ?_,
        .inr ⟨_, target, ready, rfl, arrives, rfl⟩⟩
      change .forwarded (server.connection (server.loggedIn slot).fd)
        (server.connection (server.loggedIn slot).toFd.toNat) line ::
          (consume server conn rest).events = _
      rw [leaves, arrives, events]
      rfl

theorem prompt_writes (server : Server) (slot : Slot) (writable : FdSet) :
    promptSlot server slot writable = server ∨
      ((server.loggedIn slot).fd ∈ writable ∧ (server.loggedIn slot).toFd = fdAwaiting ∧
        promptSlot server slot writable =
          server.log (.prompted (server.connection (server.loggedIn slot).fd)
            (promptEntries server slot))) := by
  unfold promptSlot
  dsimp only
  split
  next here =>
    split
    next => exact .inl rfl
    next => exact .inr ⟨here.1, here.2, rfl⟩
  next => exact .inl rfl

theorem WrittenOnce.extend {new : List ServerEvent} (written : WrittenOnce start ready added server)
    (events : next.events = new ++ server.events)
    (still : ∀ fd conn, next.connection fd = some conn → server.connection fd = some conn)
    (once : (writes new).Nodup)
    (able : ∀ target ∈ writes new, ∃ fd ∈ ready, ∃ conn, target = some conn ∧
      server.connection fd = some conn ∧ Unwritten server added fd)
    (outstanding : Outstanding next (new ++ added) ready next.phase) :
    WrittenOnce start ready (new ++ added) next where
  events := by rw [events, written.events, List.append_assoc]
  still fd conn found := written.still fd conn (still fd conn found)
  once := by
    rw [writes_append, List.nodup_append]
    refine ⟨once, written.once, fun target fresh other old same => ?_⟩
    obtain ⟨fd, -, conn, rfl, found, unwritten⟩ := able target fresh
    exact unwritten conn found (same ▸ old)
  able target member := by
    rw [writes_append] at member
    rcases List.mem_append.mp member with fresh | old
    · obtain ⟨fd, inside, conn, same, found, -⟩ := able target fresh
      exact ⟨fd, inside, conn, same, written.still fd conn found⟩
    · exact written.able target old
  outstanding := outstanding

theorem Unwritten.later {new : List ServerEvent} (unwritten : Unwritten server added fd)
    (still : ∀ conn, next.connection fd = some conn → server.connection fd = some conn)
    (apart : ∀ conn, next.connection fd = some conn → some conn ∉ writes new) :
    Unwritten next (new ++ added) fd := by
  intro conn found
  rw [writes_append, List.mem_append, not_or]
  exact ⟨apart conn found, unwritten conn (still conn found)⟩

theorem Outstanding.silent {new : List ServerEvent} {phase : Phase}
    (outstanding : Outstanding server added ready phase) (silent : writes new = [])
    (same : ∀ slot, (next.loggedIn slot).fd = (server.loggedIn slot).fd)
    (still : ∀ fd conn, next.connection fd = some conn → server.connection fd = some conn) :
    Outstanding next (new ++ added) ready phase := by
  have later (fd : Nat) (unwritten : Unwritten server added fd) :
      Unwritten next (new ++ added) fd := unwritten.later (still fd) (by simp [silent])
  cases phase with
  | accepting => exact True.intro
  | selecting _ _ => exact outstanding
  | serving slots readable writable =>
    exact fun fd inside => ⟨(outstanding fd inside).1, later fd (outstanding fd inside).2⟩
  | prompting slots writable =>
    refine ⟨outstanding.1, fun slot listed inside => ?_⟩
    rw [same] at inside ⊢
    obtain ⟨able, unwritten⟩ := outstanding.2 slot listed inside
    exact ⟨able, later _ unwritten⟩

theorem WrittenOnce.serve (written : WrittenOnce start ready added server) (routed : Routed server)
    {rest : List Slot} {readable : FdSet}
    (phase : server.phase = .serving (slot :: rest) readable writable)
    (served : serveSlot server slot readable writable = some (next, left)) :
    ∃ new, WrittenOnce start ready (new ++ added)
      { next with phase := .serving rest readable left } := by
  have still : ∀ fd conn, next.connection fd = some conn → server.connection fd = some conn := by
    intro fd conn found
    cases serve_moves routed .accepting served with
    | kept _ connections _ => exact connections fd ▸ found
    | removed slot _ connections _ =>
      have here : (if fd = (server.loggedIn slot).fd then none else server.connection fd) =
          some conn := (connections fd).symm.trans found
      split at here
      next => cases here
      next => exact here
  have outstanding : Outstanding server added ready (.serving (slot :: rest) readable writable) :=
    phase ▸ written.outstanding
  obtain ⟨new, events, ⟨rfl, silent⟩ | ⟨fd, conn, inside, rfl, found, wrote⟩⟩ :=
    serve_writes routed served
  · refine ⟨new, written.extend events still (by simp [silent]) (by simp [silent]) ?_⟩
    exact fun fd inside => ⟨(outstanding fd inside).1,
      (outstanding fd inside).2.later (still fd) (by simp [silent])⟩
  · refine ⟨new, written.extend events still (by simp [wrote]) ?_ fun other listed => ?_⟩
    · intro target member
      rw [wrote, List.mem_singleton] at member
      exact ⟨fd, (outstanding fd inside).1, conn, member, found, (outstanding fd inside).2⟩
    · obtain ⟨member, different⟩ := List.mem_filter.mp listed
      refine ⟨(outstanding other member).1, (outstanding other member).2.later (still other) ?_⟩
      intro again there
      rw [wrote, List.mem_singleton]
      intro same
      cases same
      exact absurd (routed.apart other fd conn (still other conn there) found)
        (by simpa using different)

theorem WrittenOnce.prompt (written : WrittenOnce start ready added server) (routed : Routed server)
    {rest : List Slot} (phase : server.phase = .prompting (slot :: rest) writable) :
    ∃ new, WrittenOnce start ready (new ++ added)
      { promptSlot server slot writable with phase := .prompting rest writable } := by
  obtain ⟨distinct, outstanding⟩ :
      Outstanding server added ready (.prompting (slot :: rest) writable) :=
    phase ▸ written.outstanding
  obtain ⟨unlisted, later⟩ := List.nodup_cons.mp distinct
  rcases prompt_writes server slot writable with silent | ⟨inside, awaiting, prompted⟩
  · rw [silent]
    refine ⟨[], written.extend rfl (fun _ _ found => found) List.nodup_nil (by simp [writes]) ?_⟩
    exact ⟨later, fun other listed => outstanding other (List.mem_cons_of_mem _ listed)⟩
  · rw [prompted]
    have present : (server.loggedIn slot).fd ≠ 0 := by
      intro gone
      have unassigned := (routed.blank slot gone).2
      rw [awaiting] at unassigned
      exact absurd unassigned (by decide)
    obtain ⟨conn, found⟩ := routed.stored slot present
    obtain ⟨able, unwritten⟩ := outstanding slot List.mem_cons_self inside
    rw [found]
    refine ⟨[.prompted (some conn) (promptEntries server slot)], written.extend rfl
      (fun _ _ found => found) (by simp [writes, ServerEvent.writtenTo]) ?_ ⟨later, ?_⟩⟩
    · intro target member
      obtain rfl := List.mem_singleton.mp member
      exact ⟨_, able, conn, rfl, found, unwritten⟩
    · intro other listed here
      obtain ⟨ableToo, unwrittenToo⟩ := outstanding other (List.mem_cons_of_mem _ listed) here
      refine ⟨ableToo, unwrittenToo.later (fun _ there => there) fun again there member => ?_⟩
      cases List.mem_singleton.mp member
      have same := routed.sameSlot present (routed.apart _ _ _ there found)
      exact unlisted (same ▸ listed)

theorem WrittenOnce.step (written : WrittenOnce start ready added server) (routed : Routed server)
    {label : ServerLabel} (serving : label.serving = true)
    (taken : serverStep server label = some next) :
    ∃ new, WrittenOnce start ready (new ++ added) next := by
  cases serverStep_cases taken with
  | received conn outcomes _ =>
    have silent : writes (outcomes.map (.arrived conn)).reverse = [] := by
      simp [writes, ServerEvent.writtenTo]
    exact ⟨_, written.extend rfl (fun _ _ found => found) (by simp [silent]) (by simp [silent])
      (written.outstanding.silent silent (fun _ => rfl) fun _ _ found => found)⟩
  | served slot rest readable writable left next phase turn => exact written.serve routed phase turn
  | allServed readable writable phase =>
    have outstanding : Outstanding server added ready (.serving [] readable writable) :=
      phase ▸ written.outstanding
    refine ⟨[], written.extend rfl (fun _ _ found => found) List.nodup_nil (by simp [writes]) ?_⟩
    exact ⟨List.nodup_finRange 16, fun slot _ inside => outstanding _ inside⟩
  | prompted slot rest writable phase => exact written.prompt routed phase
  | allPrompted writable phase =>
    exact ⟨[], written.extend rfl (fun _ _ found => found) List.nodup_nil (by simp [writes])
      True.intro⟩
  | accepted | interrupted | timedOut | readied => cases serving

theorem WrittenOnce.run {labels : List ServerLabel} {last : Server}
    (written : WrittenOnce start ready added server) (routed : Routed server)
    (serving : ∀ label ∈ labels, label.serving = true)
    (ran : run serverStep server labels = some last) :
    ∃ new, WrittenOnce start ready new last := by
  induction labels generalizing server added with
  | nil =>
    cases ran
    exact ⟨added, written⟩
  | cons label rest ih =>
    obtain ⟨next, taken, onward⟩ := run_cons ran
    obtain ⟨new, later⟩ := written.step routed (serving label List.mem_cons_self) taken
    exact ih later (routed.step taken)
      (fun other member => serving other (List.mem_cons_of_mem _ member)) onward

/-- Between two calls of select each connection is written to at most once, lines and prompts
together, and only if select has found it writable. -/
theorem writes_once (system : SystemDescriptors) (server last : Server)
    (readable writable : FdSet) (labels : List ServerLabel)
    (reached : Reachable serverStep (initialServer system) server)
    (ran : run serverStep server (.ready readable writable :: labels) = some last)
    (serving : ∀ label ∈ labels, label.serving = true) :
    ∃ added, last.events = added ++ server.events ∧ (writes added).Nodup ∧
      ∀ target ∈ writes added, ∃ fd ∈ writable, ∃ conn, target = some conn ∧
        server.connection fd = some conn := by
  obtain ⟨first, taken, onward⟩ := run_cons ran
  have routed := routed_reachable reached
  have beginning : WrittenOnce server writable [] first := by
    cases serverStep_cases taken with
    | readied offered wanted _ _ _ _ _ =>
      exact ⟨rfl, fun _ _ found => found, List.nodup_nil, by simp [writes],
        fun fd inside => ⟨inside, fun _ _ => by simp [writes]⟩⟩
  obtain ⟨added, written⟩ := beginning.run (routed.step taken) serving onward
  exact ⟨added, written.events, written.once, written.able⟩

def lineSent : Server :=
  arrival serverStep (fun _ _ => True) (initialServer plainSystem)
    (selectionRun ++ [.interrupted, .arrive 0 (typed "hi\n")])

theorem writes_once_afterLine :
    ∃ last added, run serverStep lineSent (.ready [4] [5] :: wholeScan) = some last ∧
      last.events = added ++ lineSent.events ∧ (writes added).Nodup ∧
      ∀ target ∈ writes added, ∃ fd ∈ [5], ∃ conn, target = some conn ∧
        lineSent.connection fd = some conn := by
  obtain ⟨last, ran⟩ := Option.isSome_iff_exists.mp
    (by decide +kernel : (run serverStep lineSent (.ready [4] [5] :: wholeScan)).isSome = true)
  obtain ⟨added, events, once, able⟩ := writes_once plainSystem lineSent last [4] [5] wholeScan
    (reaches_arrival _) ran (by decide)
  exact ⟨last, added, ran, events, once, able⟩

end Akiso.Minitalk
