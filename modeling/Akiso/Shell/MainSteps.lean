import Akiso.Shell.HandlerSteps

set_option autoImplicit false

namespace Akiso.Shell

open Transition

namespace Consistent

variable {state next : ShellState}

theorem live (consistent : Consistent state) (idle : state.handler = .idle) {job : JobId}
    (listed : job ∈ state.currentJob) : ∃ child ∈ state.children, child.job = job :=
  membersOf_pos.mp (consistent.populated job listed (by simp [idle, Handler.head]))

theorem startJob (consistent : Consistent state) (idle : state.handler = .idle) {job : Job}
    (startable : Startable job) :
    Consistent { state.setJob state.nextJob job with
      nextJob := state.nextJob + 1
      control := .starting state.nextJob true job.pipeline.length } := by
  have listed := consistent.ledger.restrict (List.subset_append_right _ _) consistent.nodup
  have older : ∀ other ∈ state.currentJob,
      Function.update state.jobs state.nextJob job other = state.jobs other := by
    intro other member
    exact Function.update_of_ne (Nat.ne_of_lt (listed.allocated other member)) _ _
  have childless : membersOf state.nextJob state.children = 0 :=
    membersOf_eq_zero.mpr fun child present => Nat.ne_of_lt (listed.known child present)
  constructor
  next => exact listed.grow.relabel fun other member => by rw [← older other member]; rfl
  next =>
    intro other member
    have counted := consistent.counted other member
    rw [← older other member] at counted
    exact counted
  next => exact fun other member _ =>
    consistent.populated other member (by simp [idle, Handler.head])
  next => exact consistent.visits
  next =>
    obtain ⟨_, nonempty, total, bounded⟩ := startable
    refine ⟨Nat.lt_succ_self _, fun member => ?_, ?_⟩
    next => exact absurd (listed.allocated _ member) (Nat.lt_irrefl _)
    next =>
      simp only [ShellState.setJob, Function.update_self]
      constructor
      next => exact (congrArg (· + _) childless).trans (by omega)
      next => exact bounded
      next => exact fun _ => ⟨childless, List.length_pos_iff.mpr nonempty⟩
      next => simp

theorem forkMember (consistent : Consistent state) (idle : state.handler = .idle) {job : JobId}
    {first : Bool} {remaining pid : Nat}
    (here : state.control = .starting job first (remaining + 1))
    (fresh : freshPid pid state.children) :
    Consistent (Shell.forkMember state job first remaining pid) := by
  have held := consistent.held
  simp only [HeldCounted, here] at held
  obtain ⟨allocated, unlisted, starts⟩ := held
  let leader := if first then pid else (state.jobs job).pgid
  let jobs := Function.update state.jobs job { state.jobs job with pgid := leader }
  have led : Ledger state.children jobs state.nextJob (job :: state.currentJob) := by
    cases first with
    | true =>
      have listed := consistent.ledger.restrict (List.subset_append_right _ _) consistent.nodup
      exact listed.adopt fresh unlisted allocated (membersOf_eq_zero.mp (starts.empty rfl).1)
        fun other member => consistent.live idle member
    | false =>
      have owned : state.owned = job :: state.currentJob := by
        simp [ShellState.owned, here, Control.grouped, Control.held]
      have ledger := consistent.ledger
      rw [owned] at ledger
      refine ledger.relabel fun other _ => ?_
      by_cases same : other = job
      next => subst same; simp [jobs, leader]
      next => simp [jobs, same]
  have group : joinGroup leader pid state.children = (jobs job).pgid := by
    have leads : (jobs job).pgid = leader := by simp [jobs]
    rw [leads]
    refine if_pos ?_
    cases first with
    | true => exact Or.inl rfl
    | false =>
      obtain ⟨child, present, member⟩ := membersOf_pos.mp (starts.populated rfl)
      refine Or.inr ⟨child, present, ?_⟩
      have grouped := (led.groups job List.mem_cons_self child present).mpr member
      simpa [jobs] using grouped
  have forked := led.fork fresh List.mem_cons_self .running
  rw [← group] at forked
  have others : ∀ other ∈ state.currentJob, other ≠ job :=
    fun other member same => unlisted (same ▸ member)
  constructor
  next => exact forked
  next =>
    intro other member
    have counted := consistent.counted other member
    have different := others other member
    simpa [Shell.forkMember, ShellState.setJob, members_eq, membersOf_append, different,
      different.symm] using counted
  next =>
    intro other member _
    have populated := consistent.populated other member (by simp [idle, Handler.head])
    rw [members_eq] at populated ⊢
    simp only [Shell.forkMember, ShellState.setJob, membersOf_append]
    omega
  next => exact consistent.visits
  next =>
    refine ⟨allocated, unlisted, ?_⟩
    have total := starts.total
    rw [members_eq] at total ⊢
    simp only [Shell.forkMember, ShellState.setJob, Function.update_self, membersOf_append,
      if_true]
    constructor
    next => omega
    next => exact starts.bounded
    next => simp
    next => omega

theorem putBack (consistent : Consistent state) (idle : state.handler = .idle) {job : JobId}
    (grouped : state.control.grouped = some job)
    (counted : Counted (state.jobs job).pipelineSize (state.members job))
    (positive : 0 < state.members job) (children : next.children = state.children)
    (jobs : ∀ other, (next.jobs other).pgid = (state.jobs other).pgid ∧
      (next.jobs other).pipelineSize = (state.jobs other).pipelineSize)
    (nextJob : next.nextJob = state.nextJob)
    (current : next.currentJob.Perm (job :: state.currentJob)) (handler : next.handler = .idle)
    (free : next.control.held = none) (busy : next.control ≠ .reaping) : Consistent next where
  ledger := by
    have before : state.owned = job :: state.currentJob := by simp [ShellState.owned, grouped]
    have after : next.owned = next.currentJob := by simp [ShellState.owned, grouped_eq_none free]
    rw [children, nextJob, after]
    refine (consistent.ledger.perm (before ▸ current)).relabel fun other _ => (jobs other).1
  counted other member := by
    rw [(jobs other).2, members_eq, children]
    rcases List.mem_cons.mp (current.subset member) with rfl | member
    · exact counted
    · exact consistent.counted other member
  populated other member _ := by
    rw [members_eq, children]
    rcases List.mem_cons.mp (current.subset member) with rfl | member
    · exact positive
    · exact consistent.populated other member (by simp [idle, Handler.head])
  visits handles here := by simp [handler] at here
  held := heldCounted_of_free free fun same => absurd same busy

theorem takeOff (consistent : Consistent state) (idle : state.handler = .idle) {job : JobId}
    {before after : List JobId} (free : state.control.held = none)
    (split : state.currentJob = before ++ job :: after) (accesses : List Access)
    {control : Control} (holding : control = .fetched job ∨ control = .moved job) :
    Consistent { state with currentJob := before ++ after, control, accesses } := by
  have listed : job ∈ state.currentJob := by simp [split]
  have positive := consistent.populated job listed (by simp [idle, Handler.head])
  have grouped : control.grouped = some job := by
    rcases holding with rfl | rfl <;> rfl
  have permuted : (job :: (before ++ after)).Perm state.owned := by
    simp only [ShellState.owned, grouped_eq_none free, Option.toList_none, List.nil_append, split]
    exact List.perm_middle.symm
  constructor
  next =>
    have owned : control.grouped.toList ++ (before ++ after) = job :: (before ++ after) := by
      simp [grouped]
    have ledger := consistent.ledger.perm permuted
    rw [← owned] at ledger
    exact ledger
  next =>
    intro other member
    refine consistent.counted other ?_
    rw [split]
    exact (List.perm_middle.symm.subset (List.mem_cons_of_mem job member))
  next =>
    intro other member _
    refine consistent.populated other ?_ (by simp [idle, Handler.head])
    rw [split]
    exact (List.perm_middle.symm.subset (List.mem_cons_of_mem job member))
  next =>
    intro handles here
    simp [idle] at here
  next =>
    rcases holding with rfl | rfl
    · exact ⟨consistent.counted job listed, positive⟩
    · exact ⟨consistent.counted job listed, positive⟩

theorem takeHandle (consistent : Consistent state) (idle : state.handler = .idle)
    (free : state.control.held = none) (arguments : List (Option (List UInt8))) (argc : Nat)
    {holding : JobId → Control}
    (holds : ∀ job, holding job = .fetched job ∨ holding job = .moved job) :
    Consistent (Shell.takeHandle state arguments argc holding) := by
  unfold Shell.takeHandle
  split
  next job rest found =>
    obtain ⟨before, after, split, rfl⟩ := getJobHandle_handle found
    exact consistent.takeOff idle free split _ (holds job)
  next => exact consistent.goto rfl (by simp)
  next => exact consistent.goto rfl (by simp)
  next => exact consistent.release rfl rfl rfl rfl idle.symm rfl (by simp [ShellState.crash])
  next => exact consistent.release rfl rfl rfl rfl idle.symm rfl (by simp [ShellState.crash])

theorem launchJob (consistent : Consistent state) (idle : state.handler = .idle) {job : JobId}
    {first : Bool} (here : state.control = .starting job first 0) :
    Consistent (Shell.launchJob state job) := by
  have held := consistent.held
  simp only [HeldCounted, here] at held
  obtain ⟨_, _, starts⟩ := held
  have started : first = false := by
    cases first with
    | true => exact absurd (starts.empty rfl).2 (Nat.lt_irrefl 0)
    | false => rfl
  subst started
  have positive := starts.populated rfl
  have total := starts.total
  have grouped : state.control.grouped = some job := by rw [here]; rfl
  unfold Shell.launchJob
  split
  next =>
    refine consistent.frame rfl (fun _ => ⟨rfl, rfl⟩) rfl rfl rfl ?_ ?_
    next =>
      simp [ShellState.owned, here, ShellState.goto, Control.grouped, Control.held]
    next =>
      refine ⟨?_, starts.bounded, fun _ => ?_, ?_, fun _ => rfl⟩
      next => exact Nat.lt_of_lt_of_eq positive total
      next => exact total.symm
      next => simp [WaitState.start]
  next =>
    exact consistent.putBack idle grouped ⟨total.symm, starts.bounded⟩ positive rfl
      (fun _ => ⟨rfl, rfl⟩) rfl (List.Perm.refl _) idle rfl (by simp [ShellState.goto])

theorem wait_ended (consistent : Consistent state) (idle : state.handler = .idle) {job : JobId}
    {wait : WaitState} (here : state.control = .waiting job wait) {child : Child}
    (present : child ∈ state.children) (member : child.job = job) :
    Consistent (waitForFgJob { state with children := reapChild child.pid state.children } job wait
      .ended) := by
  have held := consistent.held
  simp only [HeldCounted, here] at held
  have count : (wait.absorb .ended).stoppedProcessCount = 0 := by
    cases stopped : wait.stopped with
    | true => simp [WaitState.absorb, stopped]
    | false => simpa [WaitState.absorb, stopped] using held.fresh stopped
  have positive := held.positive
  have unlisted : job ∉ state.currentJob := consistent.held_unlisted (by rw [here]; rfl)
  have kept : ∀ other ∈ state.currentJob, membersOf other (reapChild child.pid state.children) =
      membersOf other state.children := by
    intro other listed
    have different : child.job ≠ other := by
      intro same
      exact unlisted (member ▸ same ▸ listed)
    have reaped := membersOf_reapChild other consistent.ledger.pids present
    rw [if_neg different] at reaped
    exact reaped
  unfold waitForFgJob
  rw [if_neg (by simp only [count]; omega)]
  have owned : state.owned = job :: state.currentJob := by
    simp [ShellState.owned, here, Control.grouped, Control.held]
  constructor
  next =>
    have ledger := consistent.ledger.reapChild child.pid
    rw [owned] at ledger
    exact ledger
  next =>
    intro other listed
    have counted := consistent.counted other listed
    rw [members_eq, ← kept other listed] at counted
    exact counted
  next =>
    intro other listed _
    have populated := consistent.populated other listed (by simp [idle, Handler.head])
    rw [members_eq, ← kept other listed] at populated
    exact populated
  next => exact consistent.visits
  next =>
    refine ⟨positive, held.bounded, ?_, fun _ => count, fun _ => count⟩
    simp [WaitState.absorb]

theorem wait_stopped (consistent : Consistent state) (idle : state.handler = .idle) {job : JobId}
    {wait : WaitState} (here : state.control = .waiting job wait) :
    Consistent (waitForFgJob state job wait .stopped) := by
  have held := consistent.held
  simp only [HeldCounted, here] at held
  have positive := held.positive
  have grouped : state.control.grouped = some job := by rw [here]; rfl
  have absorbed : (wait.absorb .stopped).fallingApart = wait.fallingApart := rfl
  unfold waitForFgJob
  dsimp only
  split
  next full =>
    have intact : wait.fallingApart = false := by
      cases apart : wait.fallingApart with
      | true =>
        simp only [WaitState.absorb, apart, if_true] at full
        omega
      | false => rfl
    have exact := held.exact intact
    exact consistent.putBack idle grouped ⟨exact, held.bounded⟩ (exact ▸ positive) rfl
      (update_accounts state.jobs job _ rfl rfl) rfl (List.Perm.refl _) idle rfl
      (by simp [ShellState.goto])
  next =>
    refine consistent.frame rfl (fun _ => ⟨rfl, rfl⟩) rfl rfl rfl ?_ ?_
    next => simp [ShellState.owned, here, ShellState.goto, Control.grouped, Control.held]
    next =>
      refine ⟨positive, held.bounded, held.exact, fun apart => ?_, ?_⟩
      next => simp [WaitState.absorb, absorbed ▸ apart]
      next => simp [WaitState.absorb]

theorem handedOver (consistent : Consistent state) {job : JobId}
    (here : state.control = .fetched job) :
    Consistent { (state.use [job]).setJob job
        { state.jobs job with stopped := false, fg := true } with
      control := .waiting job .start } := by
  have held := consistent.held
  simp only [HeldCounted, here] at held
  obtain ⟨counted, positive⟩ := held
  have waits : Waits (state.jobs job).pipelineSize (state.members job) .start := by
    refine ⟨counted.exact ▸ positive, counted.bounded, fun _ => counted.exact, ?_, fun _ => rfl⟩
    simp [WaitState.start]
  refine consistent.frame rfl (update_accounts state.jobs job _ rfl rfl) rfl rfl rfl ?_ ?_
  next =>
    simp [ShellState.owned, here, ShellState.setJob, ShellState.use, Control.grouped,
      Control.held]
  next => simpa [HeldCounted, ShellState.setJob, ShellState.use, ShellState.members] using waits

theorem dropFirst (consistent : Consistent state) (idle : state.handler = .idle)
    (free : state.control.held = none) (busy : state.control ≠ .reaping) {job : JobId}
    {rest : List JobId} (split : state.currentJob = job :: rest) (accesses : List Access) :
    Consistent { state with currentJob := rest, accesses } where
  ledger := by
    have split : state.currentJob = [] ++ job :: rest := split
    exact consistent.unlist split
  counted other member := consistent.counted other (split ▸ List.mem_cons_of_mem job member)
  populated other member _ :=
    consistent.populated other (split ▸ List.mem_cons_of_mem job member)
      (by simp [idle, Handler.head])
  visits handles here := by simp [idle] at here
  held := heldCounted_of_free free fun same => absurd same busy

theorem commandStep (consistent : Consistent state) (idle : state.handler = .idle)
    (here : state.control = .command) {event : MainEvent}
    (taken : Shell.commandStep state event = some next) : Consistent next := by
  have free : state.control.held = none := by rw [here]; rfl
  unfold Shell.commandStep at taken
  split at taken
  next =>
    split at taken
    next startable =>
      cases taken
      exact consistent.startJob idle startable
    next => simp at taken
  next arguments argc =>
    cases taken
    exact consistent.takeHandle idle free arguments argc fun _ => Or.inl rfl
  next arguments argc =>
    cases taken
    exact consistent.takeHandle idle free arguments argc fun _ => Or.inr rfl
  next =>
    cases taken
    exact consistent.release rfl rfl rfl rfl rfl rfl (by simp [ShellState.goto])
  next =>
    cases taken
    exact consistent.goto rfl (by simp)
  next =>
    cases taken
    exact consistent.goto rfl (by simp)
  next => simp at taken

theorem startStep (consistent : Consistent state) (idle : state.handler = .idle) {job : JobId}
    {first : Bool} {remaining : Nat} (here : state.control = .starting job first remaining)
    {event : MainEvent} (taken : Shell.startStep state job first remaining event = some next) :
    Consistent next := by
  unfold Shell.startStep at taken
  split at taken
  next =>
    split at taken
    next fresh =>
      cases taken
      exact consistent.forkMember idle here fresh
    next => simp at taken
  next =>
    cases taken
    exact consistent.launchJob idle here
  next =>
    cases taken
    exact consistent.goto rfl (by simp)
  next => simp at taken

theorem waitStep (consistent : Consistent state) (idle : state.handler = .idle) {job : JobId}
    {wait : WaitState} (here : state.control = .waiting job wait) {event : MainEvent}
    (taken : Shell.waitStep state job wait event = some next) : Consistent next := by
  unfold Shell.waitStep at taken
  split at taken
  next pid =>
    obtain ⟨outcome, returned, rfl⟩ := Option.map_eq_some_iff.mp taken
    obtain ⟨child, present, rfl, matched, report⟩ := waitpid_some returned
    have owned : job ∈ state.owned := by
      simp [ShellState.owned, here, Control.grouped, Control.held]
    rcases report with rfl | ⟨_, rfl⟩
    · exact consistent.wait_ended idle here present
        (consistent.member_of_group owned present matched)
    · exact (consistent.setStatus child.pid (.stopped true)).wait_stopped idle here
  next =>
    split at taken
    next =>
      cases taken
      exact consistent.goto rfl (by simp)
    next => simp at taken
  next => simp at taken

theorem fgStep (consistent : Consistent state) (idle : state.handler = .idle) {job : JobId}
    (here : state.control = .fetched job) {event : MainEvent}
    (taken : Shell.fgStep state job event = some next) : Consistent next := by
  unfold Shell.fgStep at taken
  split at taken
  next =>
    cases taken
    have held := consistent.held
    simp only [HeldCounted, here] at held
    exact consistent.putBack idle (by rw [here]; rfl) held.1 held.2 rfl (fun _ => ⟨rfl, rfl⟩) rfl
      (List.perm_append_singleton _ _) idle rfl (by simp)
  next =>
    cases taken
    exact consistent.handedOver here
  next => simp at taken

theorem bgStep (consistent : Consistent state) (idle : state.handler = .idle) {job : JobId}
    (here : state.control = .moved job) {event : MainEvent}
    (taken : Shell.bgStep state job event = some next) : Consistent next := by
  unfold Shell.bgStep at taken
  split at taken
  next =>
    cases taken
    have held := consistent.held
    simp only [HeldCounted, here] at held
    exact consistent.putBack idle (by rw [here]; rfl) held.1 held.2 rfl
      (update_accounts state.jobs job _ rfl rfl) rfl (List.perm_append_singleton _ _) idle rfl
      (by simp)
  next => simp at taken

theorem printStep (consistent : Consistent state) {ending : Bool} {event : MainEvent}
    (taken : Shell.printStep state ending event = some next) : Consistent next := by
  unfold Shell.printStep at taken
  split at taken
  next =>
    split at taken
    next =>
      cases taken
      exact consistent.release rfl rfl rfl rfl rfl rfl (by simp)
    next =>
      cases taken
      exact consistent.goto rfl (by simp)
  next => simp at taken

theorem showStep (consistent : Consistent state) {ending : Bool} {job : JobId} {event : MainEvent}
    (taken : Shell.showStep state ending job event = some next) : Consistent next := by
  unfold Shell.showStep at taken
  split at taken <;> cases taken
  exact consistent.release rfl rfl rfl rfl rfl rfl (by simp)

theorem removeStep (consistent : Consistent state) {ending : Bool}
    (here : state.control = .removing ending) {event : MainEvent}
    (taken : Shell.removeStep state ending event = some next) : Consistent next := by
  have free : state.control.held = none := by rw [here]; rfl
  unfold Shell.removeStep at taken
  split at taken
  next =>
    split at taken
    next =>
      cases taken
      exact consistent.release rfl rfl rfl rfl rfl free fun same => by cases here.symm.trans same
    next =>
      cases taken
      exact consistent.goto (by cases ending <;> rfl) (by cases ending <;> simp)
  next => simp at taken

theorem drainStep (consistent : Consistent state) (idle : state.handler = .idle)
    (here : state.control = .draining) {event : MainEvent}
    (taken : Shell.drainStep state event = some next) : Consistent next := by
  unfold Shell.drainStep at taken
  split at taken
  next =>
    split at taken
    next job rest split =>
      cases taken
      exact consistent.dropFirst idle (by rw [here]; rfl) (by simp [here]) split _
    next empty =>
      cases taken
      exact consistent.goto rfl fun _ => empty
  next => simp at taken

theorem reapStep (consistent : Consistent state) (idle : state.handler = .idle)
    (here : state.control = .reaping) {event : MainEvent}
    (taken : Shell.reapStep state event = some next) : Consistent next := by
  have empty : state.currentJob = [] := by simpa [HeldCounted, here] using consistent.held
  unfold Shell.reapStep at taken
  split at taken
  next pid =>
    obtain ⟨outcome, returned, rfl⟩ := Option.map_eq_some_iff.mp taken
    obtain ⟨child, present, rfl, _, report⟩ := waitpid_some returned
    rcases report with rfl | ⟨untraced, _⟩
    · exact consistent.reap_apart present (List.Sublist.refl _) (by simp [empty])
        (by simp [here, Control.held]) (by simp [idle]) _ _
    · simp at untraced
  next =>
    split at taken
    next =>
      cases taken
      exact consistent.goto rfl (by simp)
    next => simp at taken
  next => simp at taken

theorem mainStep (consistent : Consistent state) {event : MainEvent}
    (taken : Shell.mainStep state event = some next) : Consistent next := by
  unfold Shell.mainStep at taken
  split at taken
  next idle =>
    unfold controlStep at taken
    split at taken
    next here => exact consistent.commandStep idle here taken
    next here => exact consistent.startStep idle here taken
    next here => exact consistent.waitStep idle here taken
    next =>
      unfold terminalStep at taken
      split at taken <;> cases taken
      · exact consistent.goto rfl (by simp)
      · exact consistent.goto rfl (by simp)
    next here => exact consistent.fgStep idle here taken
    next here => exact consistent.bgStep idle here taken
    next =>
      unfold announceStep at taken
      split at taken <;> cases taken
      exact consistent.release rfl rfl rfl rfl rfl rfl (by simp)
    next => exact consistent.printStep taken
    next => exact consistent.showStep taken
    next here => exact consistent.removeStep here taken
    next =>
      split at taken <;> cases taken
      exact consistent.goto rfl (by simp)
    next here => exact consistent.drainStep idle here taken
    next here => exact consistent.reapStep idle here taken
    next => simp at taken
    next => simp at taken
  next => simp at taken

theorem shellStep (consistent : Consistent state) {event : ShellEvent}
    (attributed : AttributedSweep state event)
    (taken : Shell.shellStep state event = some next) : Consistent next := by
  cases event with
  | child event => exact consistent.childStep taken
  | handler event => exact consistent.handlerStep attributed taken
  | main event => exact consistent.mainStep taken

theorem initial : Consistent initialShell where
  ledger := by
    constructor <;> simp [initialShell, DistinctPids, ShellState.owned, Control.grouped,
      Control.held]
  counted := by simp [initialShell]
  populated := by simp [initialShell]
  visits := by simp [initialShell]
  held := by simp [HeldCounted, initialShell]

theorem reached (run : Reaches Shell.shellStep AttributedSweep initialShell state) :
    Consistent state :=
  run.invariant Consistent initial fun _ _ _ consistent attributed taken =>
    consistent.shellStep attributed taken

end Consistent

end Akiso.Shell
