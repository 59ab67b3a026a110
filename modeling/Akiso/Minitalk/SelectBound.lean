import Mathlib.Data.Fintype.EquivFin
import Akiso.Minitalk.Routing

set_option autoImplicit false

namespace Akiso.Minitalk

open Transition

-- The kernel hands out the lowest descriptor that is not open.
def LowestFree (server : Server) : ServerLabel → Prop
  | .accept peer => ∀ fd < peer, server.descriptors fd ≠ none
  | _ => True

instance (server : Server) (label : ServerLabel) : Decidable (LowestFree server label) :=
  match label with
  | .accept peer => inferInstanceAs (Decidable (∀ fd < peer, server.descriptors fd ≠ none))
  | .arrive _ _ => .isTrue True.intro
  | .interrupted => .isTrue True.intro
  | .timeout => .isTrue True.intro
  | .ready _ _ => .isTrue True.intro
  | .serve => .isTrue True.intro
  | .prompt => .isTrue True.intro

def Phase.watched : Phase → List Nat
  | .accepting => []
  | .selecting readable writable => readable ++ writable
  | .serving _ readable writable => readable ++ writable
  | .prompting _ writable => writable

structure SelectSafe (server : Server) : Prop where
  distinct : ∀ first second, first ≠ second → (server.loggedIn first).fd ≠ 0 →
    (server.loggedIn second).fd ≠ 0 → (server.loggedIn first).fd ≠ (server.loggedIn second).fd
  range : ∀ slot, (server.loggedIn slot).fd ≠ 0 →
    4 ≤ (server.loggedIn slot).fd ∧ (server.loggedIn slot).fd ≤ 19
  watched : ∀ fd ∈ server.phase.watched, fd < selectBound

/-- The connections that no slot holds lie above all those that a slot can hold. -/
structure Packed (server : Server) : Prop where
  system : ∀ fd, server.descriptors fd = some .system ↔ fd < 4
  bounded : ∀ slot, (server.loggedIn slot).fd < selectBound
  spare : ∀ fd conn, server.connection fd = some conn →
    (∀ slot, (server.loggedIn slot).fd ≠ fd) → selectBound ≤ fd

variable {server next : Server} {slot : Slot}

theorem mem_fdSet {fd other : Nat} {set : FdSet} (member : other ∈ fdSet fd set) :
    other = fd ∨ other ∈ set := by
  unfold fdSet at member
  split at member
  next => exact .inr member
  next => exact List.mem_cons.mp member

namespace Packed

theorem keep (packed : Packed server) (descriptors : next.descriptors = server.descriptors)
    (fds : ∀ slot, (next.loggedIn slot).fd = (server.loggedIn slot).fd) : Packed next where
  system fd := by
    rw [descriptors]
    exact packed.system fd
  bounded slot := by
    rw [fds]
    exact packed.bounded slot
  spare fd conn found unheld := by
    simp only [Server.connection, descriptors] at found
    exact packed.spare fd conn found fun slot => fds slot ▸ unheld slot

theorem above_system (packed : Packed server) (routed : Routed server)
    (present : (server.loggedIn slot).fd ≠ 0) : 4 ≤ (server.loggedIn slot).fd := by
  obtain ⟨conn, connected⟩ := routed.stored slot present
  by_contra low
  have system := (packed.system _).mpr (Nat.lt_of_not_le low)
  rw [connection_eq_some, system] at connected
  cases connected

theorem removeUser (packed : Packed server) (routed : Routed server)
    (present : (server.loggedIn slot).fd ≠ 0) : Packed (removeUser server slot) := by
  have fds : ∀ other, ((Minitalk.removeUser server slot).loggedIn other).fd =
      if other = slot then 0 else (server.loggedIn other).fd := by
    intro other
    split
    next same => simp [same, noUser]
    next different => rw [removeUser_other different]
  constructor
  case system =>
    intro fd
    by_cases same : fd = (server.loggedIn slot).fd
    · have high := packed.above_system routed present
      simp only [Minitalk.removeUser, same, Function.update_self]
      simp only [reduceCtorEq, false_iff]
      omega
    · simp only [Minitalk.removeUser, Function.update_of_ne same]
      exact packed.system fd
  case bounded =>
    intro other
    rw [fds]
    split
    next => decide
    next => exact packed.bounded other
  case spare =>
    intro fd conn found unheld
    rw [removeUser_connection] at found
    split at found
    next => simp at found
    next apart =>
      apply packed.spare fd conn found
      intro other same
      have still := unheld other
      rw [fds] at still
      split at still
      next here => exact apart (here ▸ same).symm
      next => exact still same

-- Sixteen distinct descriptors from 4 to 19 leave none of these numbers free.
theorem full (packed : Packed server) (routed : Routed server)
    (taken : ∀ slot, (server.loggedIn slot).fd ≠ 0) {fd : Nat} (low : 4 ≤ fd)
    (high : fd < selectBound) : ∃ slot, (server.loggedIn slot).fd = fd := by
  have inside : ∀ slot, (server.loggedIn slot).fd - 4 < 16 := by
    intro slot
    have bounded := packed.bounded slot
    simp only [selectBound] at bounded
    omega
  have injective : Function.Injective
      fun slot => (⟨(server.loggedIn slot).fd - 4, inside slot⟩ : Slot) := by
    intro first second same
    have first_low := packed.above_system routed (taken first)
    have second_low := packed.above_system routed (taken second)
    simp only [Fin.mk.injEq] at same
    exact routed.sameSlot (taken second) (by omega)
  obtain ⟨slot, found⟩ := Finite.surjective_of_injective injective
    ⟨fd - 4, by simp only [selectBound] at high; omega⟩
  have slot_low := packed.above_system routed (taken slot)
  simp only [Fin.mk.injEq] at found
  exact ⟨slot, by omega⟩

theorem room (packed : Packed server) (free : (server.loggedIn slot).fd = 0) {peer : Nat}
    (lowest : ∀ fd < peer, server.descriptors fd ≠ none) : peer < selectBound := by
  by_contra high
  have held : ∀ offset : Slot, ∃ slot, (server.loggedIn slot).fd = 4 + offset.val := by
    intro offset
    have below : 4 + offset.val < selectBound := by
      simp only [selectBound]
      omega
    have occupied := lowest (4 + offset.val) (by omega)
    by_contra unheld
    simp only [not_exists] at unheld
    cases owner : server.descriptors (4 + offset.val) with
    | none => exact occupied owner
    | some holder =>
      cases holder with
      | system =>
        have low := (packed.system _).mp owner
        omega
      | connection conn =>
        have spare := packed.spare _ conn (connection_eq_some.mpr owner) unheld
        omega
  choose holder holds using held
  have injective : Function.Injective holder := by
    intro first second same
    have first_holds := holds first
    rw [same, holds second] at first_holds
    exact Fin.ext (by omega)
  obtain ⟨offset, found⟩ := Finite.surjective_of_injective injective slot
  have occupied := holds offset
  rw [found, free] at occupied
  omega

theorem acceptPeer (packed : Packed server) (routed : Routed server) {peer : Nat}
    (fresh : server.descriptors peer = none)
    (lowest : ∀ fd < peer, server.descriptors fd ≠ none) : Packed (acceptPeer server peer) := by
  have above : 4 ≤ peer := by
    by_contra low
    have system := (packed.system peer).mpr (Nat.lt_of_not_le low)
    rw [system] at fresh
    cases fresh
  have system : ∀ fd, (openConnection server peer).descriptors fd = some .system ↔ fd < 4 := by
    intro fd
    by_cases same : fd = peer
    · simp [openConnection, same, above]
    · simp only [openConnection, Function.update_of_ne same]
      exact packed.system fd
  have before : ∀ fd conn, fd ≠ peer → (openConnection server peer).connection fd = some conn →
      server.connection fd = some conn := by
    intro fd conn different found
    rwa [openConnection_connection, if_neg different] at found
  rcases acceptPeer_cases server peer with ⟨slot, free, stored⟩ | ⟨taken, dropped⟩
  · rw [stored]
    constructor
    case system => exact system
    case bounded =>
      intro other
      by_cases same : other = slot
      · subst same
        simp only [Server.log, Server.setUser_self]
        exact packed.room free lowest
      · simp only [Server.log, Server.setUser_other _ _ same]
        exact packed.bounded other
    case spare =>
      intro fd conn connected unheld
      have different : fd ≠ peer := by
        have here := unheld slot
        simp only [Server.log, Server.setUser_self] at here
        exact Ne.symm here
      have earlier := before fd conn different connected
      refine packed.spare fd conn earlier fun other same => ?_
      have still := unheld other
      by_cases here : other = slot
      · rw [here, free] at same
        rw [connection_eq_some, ← same, routed.zero] at earlier
        cases earlier
      · simp only [Server.log, Server.setUser_other _ _ here] at still
        exact still same
  · rw [dropped]
    constructor
    case system => exact system
    case bounded => exact packed.bounded
    case spare =>
      intro fd conn connected unheld
      by_cases same : fd = peer
      · rw [same]
        by_contra low
        obtain ⟨slot, holds⟩ := packed.full routed taken above (Nat.lt_of_not_le low)
        exact routed.unheld fresh slot holds
      · exact packed.spare fd conn (before fd conn same connected) unheld

theorem buildSets (packed : Packed server) : Packed (buildSets server) :=
  packed.keep rfl fun slot => by
    simp only [Minitalk.buildSets, awaitSelection]
    split
    next => rfl
    next => rfl

theorem promptSlot (packed : Packed server) (slot : Slot) (writable : FdSet) :
    Packed (promptSlot server slot writable) := by
  rcases promptSlot_cases server slot writable with silent | prompted
  · rw [silent]
    exact packed
  · rw [prompted]
    exact packed.keep rfl fun _ => rfl

theorem serveSlot (packed : Packed server) (routed : Routed server)
    {readable writable left : FdSet}
    (served : serveSlot server slot readable writable = some (next, left)) :
    Packed next ∧ left ⊆ writable := by
  rcases serveSlot_cases (routed.stored slot) served with
    ⟨rfl, rfl⟩ | ⟨conn, line, rest, present, _, _, _, turn⟩
  · exact ⟨packed, List.Subset.refl _⟩
  · have consumed : Packed (consume server conn rest) := packed.keep rfl fun _ => rfl
    have routed := routed.consume conn rest
    have update : ∀ user : User, user.fd = (server.loggedIn slot).fd →
        Packed ((consume server conn rest).setUser slot user) := by
      intro user same
      refine consumed.keep rfl fun other => ?_
      by_cases here : other = slot
      · rw [here, Server.setUser_self]
        exact same
      · rw [Server.setUser_other _ _ here]
    cases turn with
    | removed => exact ⟨consumed.removeUser routed present, List.Subset.refl _⟩
    | named name _ => exact ⟨update _ rfl, List.Subset.refl _⟩
    | selected buff _ _ =>
      refine ⟨?_, List.Subset.refl _⟩
      rcases routed.selectTarget_cases present buff with
        removed | ⟨newTo, sender, receiver, _, _, _, _, selected⟩
      · rw [removed]
        exact consumed.removeUser routed present
      · rw [selected]
        have chosen := update { server.loggedIn slot with toFd := (server.loggedIn newTo).fd } rfl
        exact chosen.keep rfl fun _ => rfl
    | forwarded _ _ _ =>
      exact ⟨consumed.keep rfl fun _ => rfl, List.filter_subset_self _⟩

end Packed

theorem built_below (packed : Packed server) (routed : Routed server) :
    ∀ fd ∈ (buildSets server).phase.watched, fd < selectBound := by
  have readable : ∀ slot set, (∀ fd ∈ set, fd < selectBound) →
      ∀ fd ∈ addReadable (server.loggedIn slot) set, fd < selectBound := by
    intro slot set below fd member
    unfold addReadable at member
    split at member
    next =>
      rcases mem_fdSet member with same | member
      · exact same ▸ packed.bounded slot
      · exact below fd member
    next => exact below fd member
  have writable : ∀ slot set, (∀ fd ∈ set, fd < selectBound) →
      ∀ fd ∈ addWritable (server.loggedIn slot) set, fd < selectBound := by
    intro slot set below fd member
    unfold addWritable at member
    split at member
    next =>
      split at member
      next forwarding =>
        rcases mem_fdSet member with same | member
        · rcases routed.targets slot with unassigned | awaiting | ⟨target, _, _, chosen⟩
          · simp [unassigned, fdUnassigned] at forwarding
          · simp [awaiting, fdAwaiting] at forwarding
          · rw [same, chosen]
            exact packed.bounded target
        · exact below fd member
      next =>
        split at member
        next =>
          rcases mem_fdSet member with same | member
          · exact same ▸ packed.bounded slot
          · exact below fd member
        next => exact below fd member
    next => exact below fd member
  intro fd member
  simp only [buildSets, Phase.watched, List.mem_append, List.foldl_map] at member
  rcases member with member | member
  · exact List.foldlRecOn (motive := fun set => ∀ fd ∈ set, fd < selectBound) _ _ (by simp)
      (fun set below slot _ => readable slot set below) fd member
  · exact List.foldlRecOn (motive := fun set => ∀ fd ∈ set, fd < selectBound) _ _ (by simp)
      (fun set below slot _ => writable slot set below) fd member

structure Bounded (server : Server) : Prop extends Routed server, Packed server where
  below : ∀ fd ∈ server.phase.watched, fd < selectBound

theorem Bounded.step (bounded : Bounded server) {label : ServerLabel}
    (lowest : LowestFree server label) (taken : serverStep server label = some next) :
    Bounded next := by
  have routed := bounded.toRouted.step taken
  have packed := bounded.toPacked
  have still : ∀ phase, phase.watched ⊆ server.phase.watched →
      Bounded { server with phase := phase } := fun phase less =>
    ⟨bounded.toRouted.phase phase, packed.keep rfl fun _ => rfl,
      fun fd member => bounded.below fd (less member)⟩
  cases serverStep_cases taken with
  | received conn outcomes _ => exact ⟨routed, packed.keep rfl fun _ => rfl, bounded.below⟩
  | accepted peer _ fresh =>
    have accepted := packed.acceptPeer bounded.toRouted fresh lowest
    exact ⟨routed, accepted.buildSets, built_below accepted (bounded.toRouted.acceptPeer fresh)⟩
  | interrupted _ => exact ⟨routed, packed.buildSets, built_below packed bounded.toRouted⟩
  | timedOut _ _ _ => exact still _ (List.nil_subset _)
  | readied offered wanted readable writable selecting less fewer =>
    apply still
    rw [selecting]
    exact List.append_subset.mpr ⟨List.subset_append_of_subset_left _ less,
      List.subset_append_of_subset_right _ fewer⟩
  | served slot rest readable writable left next serving turn =>
    obtain ⟨kept, fewer⟩ := packed.serveSlot bounded.toRouted turn
    refine ⟨routed, kept.keep rfl fun _ => rfl, ?_⟩
    intro fd member
    apply bounded.below fd
    rw [serving]
    rcases List.mem_append.mp member with read | written
    · exact List.mem_append_left _ read
    · exact List.mem_append_right _ (fewer written)
  | allServed readable writable serving =>
    apply still
    rw [serving]
    exact List.subset_append_right _ _
  | prompted slot rest writable prompting =>
    refine ⟨routed, (packed.promptSlot slot writable).keep rfl fun _ => rfl, ?_⟩
    intro fd member
    apply bounded.below fd
    rw [prompting]
    exact member
  | allPrompted _ _ => exact still _ (List.nil_subset _)

theorem bounded_initial : Bounded (initialServer plainSystem) := by
  have unconnected : ∀ fd conn, (initialServer plainSystem).connection fd ≠ some conn := by
    intro fd conn found
    have numbered := (routed_initial plainSystem).numbered fd conn found
    exact Nat.not_lt_zero _ numbered
  refine ⟨routed_initial plainSystem, ⟨?_, ?_, ?_⟩, ?_⟩
  · intro fd
    simp [initialServer, plainSystem]
  · intro slot
    simp [initialServer, noUser, selectBound]
  · intro fd conn found
    exact absurd found (unconnected fd conn)
  · simp [initialServer, Phase.watched]

theorem select_bound (server : Server)
    (reached : Reaches serverStep LowestFree (initialServer plainSystem) server) :
    SelectSafe server := by
  have bounded := reached.invariant Bounded bounded_initial
    fun _ _ _ bounded lowest taken => bounded.step lowest taken
  refine ⟨bounded.distinct, ?_, bounded.below⟩
  intro slot present
  have high := bounded.bounded slot
  simp only [selectBound] at high
  exact ⟨bounded.toPacked.above_system bounded.toRouted present, by omega⟩

def crowdedRun : List ServerLabel :=
  ((List.range 17).flatMap fun client => [.accept (4 + client), .timeout]) ++
    [.interrupted, .arrive 0 [.closed], .ready [4] []] ++ wholeScan ++ [.accept 4]

theorem select_bound_crowded :
    let server := arrival serverStep LowestFree (initialServer plainSystem) crowdedRun
    server.connection 4 = some 17 ∧ server.connection 20 = some 16 ∧ SelectSafe server := by
  intro server
  refine ⟨by decide +kernel, by decide +kernel, ?_⟩
  exact select_bound server (reaches_arrival _)

end Akiso.Minitalk
