import Akiso.Shell.MainSteps

set_option autoImplicit false

namespace Akiso.Shell

open Transition

instance (state : ShellState) : Decidable (Accounted state) :=
  inferInstanceAs (Decidable (∀ job ∈ state.currentJob,
    (state.jobs job).pipelineSize = state.members job))

instance (state : ShellState) : ∀ event, Decidable (AttributedSweep state event)
  | .handler (.swept (some pid)) =>
    inferInstanceAs (Decidable (∀ child ∈ state.children, child.pid = pid →
      state.control.held ≠ some child.job ∧
        child.job ∉ (removeJobHandle state.jobs pid state.currentJob).2))
  | .handler (.swept none) => isTrue True.intro
  | .handler .delivered => isTrue True.intro
  | .handler (.polled _) => isTrue True.intro
  | .child _ => isTrue True.intro
  | .main _ => isTrue True.intro

def HandlerRun (state last : ShellState) : Prop :=
  Reaches shellStep (fun state event => AttributedSweep state event ∧ state.handler ≠ .idle)
    state last ∧ last.handler = .idle

def Retired (state : ShellState) (job : JobId) : Prop :=
  job ∉ state.currentJob ∧ job ∈ state.pendingRemovedJobs

-- The handler has reaped the last member and stands at the handle of the job.
def Retiring (state : ShellState) (job : JobId) : Prop :=
  Retired state job ∨
    state.handler.head = some job ∧ job ∈ state.currentJob ∧ state.members job = 0

def MembersChange (state next : ShellState) : Prop :=
  next.children = state.children ∨
  (∃ child, next.children = state.children ++ [child]) ∨
  (∃ pid status, next.children = setStatus pid status state.children) ∨
  ∃ child ∈ state.children, next.children = reapChild child.pid state.children ∧
    (state.control = .reaping ∨
      ∃ job wait, state.control = .waiting job wait ∧
        inGroup (state.jobs job).pgid child = true)

theorem takeHandle_children (state : ShellState) (arguments : List (Option (List UInt8)))
    (argc : Nat) (holding : JobId → Control) :
    (takeHandle state arguments argc holding).children = state.children := by
  unfold takeHandle
  split <;> rfl

theorem waitForFgJob_children (state : ShellState) (job : JobId) (wait : WaitState)
    (report : Report) : (waitForFgJob state job wait report).children = state.children := by
  unfold waitForFgJob
  dsimp only
  split <;> rfl

theorem waitStep_children {state next : ShellState} {job : JobId} {wait : WaitState}
    {event : MainEvent} (here : state.control = .waiting job wait)
    (taken : waitStep state job wait event = some next) : MembersChange state next := by
  unfold waitStep at taken
  split at taken
  next pid =>
    obtain ⟨outcome, returned, rfl⟩ := Option.map_eq_some_iff.mp taken
    obtain ⟨child, present, rfl, matched, report⟩ := waitpid_some returned
    unfold MembersChange
    rw [waitForFgJob_children]
    rcases report with rfl | ⟨_, rfl⟩
    · exact Or.inr (Or.inr (Or.inr ⟨child, present, rfl, Or.inr ⟨job, wait, here, matched⟩⟩))
    · exact Or.inr (Or.inr (Or.inl ⟨_, _, rfl⟩))
  next =>
    split at taken <;> cases taken
    exact Or.inl rfl
  next => simp at taken

theorem reapStep_children {state next : ShellState} {event : MainEvent}
    (here : state.control = .reaping) (taken : reapStep state event = some next) :
    MembersChange state next := by
  unfold reapStep at taken
  split at taken
  next pid =>
    obtain ⟨outcome, returned, rfl⟩ := Option.map_eq_some_iff.mp taken
    obtain ⟨child, present, rfl, _, report⟩ := waitpid_some returned
    rcases report with rfl | ⟨untraced, _⟩
    · exact Or.inr (Or.inr (Or.inr ⟨child, present, rfl, Or.inl here⟩))
    · simp at untraced
  next =>
    split at taken <;> cases taken
    exact Or.inl rfl
  next => simp at taken

theorem startStep_children {state next : ShellState} {job : JobId} {first : Bool}
    {remaining : Nat} {event : MainEvent}
    (taken : startStep state job first remaining event = some next) :
    MembersChange state next := by
  unfold startStep at taken
  split at taken
  next =>
    split at taken <;> cases taken
    exact Or.inr (Or.inl ⟨_, rfl⟩)
  next =>
    cases taken
    unfold launchJob
    split <;> exact Or.inl rfl
  next =>
    cases taken
    exact Or.inl rfl
  next => simp at taken

theorem commandStep_children {state next : ShellState} {event : MainEvent}
    (taken : commandStep state event = some next) : next.children = state.children := by
  unfold commandStep at taken
  split at taken
  next =>
    split at taken <;> cases taken
    rfl
  next =>
    cases taken
    exact takeHandle_children _ _ _ _
  next =>
    cases taken
    exact takeHandle_children _ _ _ _
  all_goals
    cases taken
    try rfl

theorem mainStep_children {state next : ShellState} {event : MainEvent}
    (taken : mainStep state event = some next) : MembersChange state next := by
  unfold mainStep at taken
  split at taken
  next =>
    unfold controlStep at taken
    split at taken
    next => exact Or.inl (commandStep_children taken)
    next => exact startStep_children taken
    next here => exact waitStep_children here taken
    next =>
      unfold terminalStep at taken
      split at taken <;> cases taken <;> exact Or.inl rfl
    next =>
      unfold fgStep at taken
      split at taken <;> cases taken <;> exact Or.inl rfl
    next =>
      unfold bgStep at taken
      split at taken <;> cases taken
      exact Or.inl rfl
    next =>
      unfold announceStep at taken
      split at taken <;> cases taken
      exact Or.inl rfl
    next =>
      unfold printStep at taken
      split at taken
      next => split at taken <;> cases taken <;> exact Or.inl rfl
      next => simp at taken
    next =>
      unfold showStep at taken
      split at taken <;> cases taken
      exact Or.inl rfl
    next =>
      unfold removeStep at taken
      split at taken
      next => split at taken <;> cases taken <;> exact Or.inl rfl
      next => simp at taken
    next =>
      split at taken <;> cases taken
      exact Or.inl rfl
    next =>
      unfold drainStep at taken
      split at taken
      next => split at taken <;> cases taken <;> exact Or.inl rfl
      next => simp at taken
    next here => exact reapStep_children here taken
    next => simp at taken
    next => simp at taken
  next => simp at taken

theorem Consistent.mainStep_members {state next : ShellState} (consistent : Consistent state)
    {event : MainEvent} (taken : Shell.mainStep state event = some next) {job : JobId}
    (listed : job ∈ state.currentJob) : state.members job ≤ next.members job := by
  rw [members_eq, members_eq]
  rcases mainStep_children taken with same | ⟨child, forked⟩ | ⟨pid, status, marked⟩ |
    ⟨child, present, reaped, place⟩
  · rw [same]
  · rw [forked, membersOf_append]
    exact Nat.le_add_right _ _
  · rw [marked, membersOf_setStatus]
  · rcases place with here | ⟨held, wait, here, matched⟩
    · have empty : state.currentJob = [] := by simpa [HeldCounted, here] using consistent.held
      simp [empty] at listed
    · have owned : held ∈ state.owned := by
        simp [ShellState.owned, here, Control.grouped, Control.held]
      have member := consistent.member_of_group owned present matched
      have different : child.job ≠ job := by
        rintro rfl
        rw [member] at listed
        exact consistent.held_unlisted (by rw [here]; rfl) listed
      have count := membersOf_reapChild job consistent.ledger.pids present
      rw [if_neg different] at count
      rw [reaped]
      exact Nat.le_of_eq count.symm

theorem membersOf_reapChild_eq {children : List Child} {child : Child} {job : JobId}
    (distinct : DistinctPids children) (present : child ∈ children) (different : child.job ≠ job) :
    membersOf job (reapChild child.pid children) = membersOf job children := by
  have count := membersOf_reapChild job distinct present
  rwa [if_neg different] at count

theorem leaveHandle_children (state : ShellState) (job : JobId) (rest : List JobId) :
    (leaveHandle state job rest).children = state.children := by
  unfold leaveHandle
  dsimp only
  split <;> rfl

theorem sweepChild_children (state : ShellState) (pid : Nat) :
    (sweepChild state pid).children = state.children := by
  unfold sweepChild
  dsimp only
  split <;> rfl

theorem sweepChild_currentJob (state : ShellState) (pid : Nat) :
    (sweepChild state pid).currentJob =
      (removeJobHandle state.jobs pid state.currentJob).2 := by
  unfold sweepChild
  dsimp only
  split
  next => rfl
  next refused =>
    have missing : (removeJobHandle state.jobs pid state.currentJob).1 = none := by
      unfold addFirst at refused
      split at refused <;> simp_all
    exact (removeJobHandle_none missing).symm

theorem sweepChild_retired {state : ShellState} {job : JobId} (pid : Nat)
    (removed : (removeJobHandle state.jobs pid state.currentJob).1 = some job) :
    job ∈ (sweepChild state pid).pendingRemovedJobs := by
  unfold sweepChild
  simp [removed, addFirst]

theorem sweepChild_keeps {state : ShellState} {job : JobId} (pid : Nat)
    (pending : job ∈ state.pendingRemovedJobs) :
    job ∈ (sweepChild state pid).pendingRemovedJobs := by
  unfold sweepChild
  dsimp only
  split
  next removed added =>
    unfold addFirst at added
    split at added
    next => cases added; exact List.mem_cons_of_mem _ pending
    next here => rw [here] at pending; simp at pending
    next => simp at added
  next => exact pending

theorem leaveHandle_keeps {state : ShellState} {job : JobId} (handle : JobId) (rest : List JobId)
    (retired : Retired state job) : Retired (leaveHandle state handle rest) job := by
  unfold leaveHandle
  dsimp only
  split
  next =>
    refine ⟨fun listed => retired.1 ?_, List.mem_append_left _ retired.2⟩
    exact (removeJobHandle_sublist _ _ _).subset listed
  next => exact retired

theorem Consistent.reaped_own {state : ShellState} (consistent : Consistent state) {child : Child}
    {job : JobId} (present : child ∈ state.children) (alive : 0 < membersOf job state.children)
    (reaped : membersOf job (reapChild child.pid state.children) = 0) : child.job = job := by
  by_contra different
  have kept := membersOf_reapChild_eq consistent.ledger.pids present different
  omega

theorem sweepChild_unlisted {state : ShellState} {job : JobId} (pid : Nat)
    (listed : job ∈ state.currentJob)
    (unlisted : job ∉ (removeJobHandle state.jobs pid state.currentJob).2) :
    job ∈ (sweepChild state pid).pendingRemovedJobs := by
  cases removed : (removeJobHandle state.jobs pid state.currentJob).1 with
  | none =>
    rw [removeJobHandle_none removed] at unlisted
    exact absurd listed unlisted
  | some other =>
    obtain ⟨before, after, split, rest, _⟩ := removeJobHandle_some removed
    have same : job = other := by
      rw [split] at listed
      rw [rest] at unlisted
      rcases List.mem_cons.mp (List.perm_middle.subset listed) with same | later
      · exact same
      · exact absurd later unlisted
    exact same ▸ sweepChild_retired pid removed

-- One step of the handler takes a job from its last member to Retiring, and keeps it there.
theorem Consistent.reaped_retiring {state next : ShellState} (consistent : Consistent state)
    {event : ShellEvent} (attributed : AttributedSweep state event)
    (taken : Shell.shellStep state event = some next) {job : JobId}
    (listed : job ∈ state.currentJob) (alive : 0 < state.members job)
    (reaped : next.members job = 0) : Retiring next job := by
  have lost : next.children ≠ state.children := by
    intro same
    rw [members_eq, same, ← members_eq] at reaped
    omega
  cases event with
  | child event =>
    unfold Shell.shellStep Shell.childStep at taken
    dsimp only at taken
    split at taken
    all_goals
      split at taken <;> cases taken
      rw [members_eq, membersOf_setStatus, ← members_eq] at reaped
      omega
  | main event =>
    have kept := consistent.mainStep_members taken listed
    omega
  | handler event =>
    unfold Shell.shellStep Shell.handlerStep at taken
    dsimp only at taken
    split at taken
    next =>
      split at taken <;> cases taken
      exact absurd rfl lost
    next pid =>
      split at taken
      next handle rest visiting =>
        obtain ⟨outcome, returned, rfl⟩ := Option.map_eq_some_iff.mp taken
        obtain ⟨child, present, rfl, matched, report⟩ := waitpid_some returned
        have visited := (consistent.visits _ visiting).2
          (List.mem_cons_self (a := handle) (l := rest))
        have member := consistent.member_of_group (listed_owned visited) present matched
        rcases report with rfl | ⟨_, rfl⟩
        · rw [members_eq] at alive
          have same : handle = job := member.symm.trans
            (consistent.reaped_own present alive ((members_eq _ _).symm.trans reaped))
          subst same
          refine Or.inr ⟨?_, listed, reaped⟩
          simp [ShellState.setJob, ShellState.use, visiting, Handler.head]
        · rw [members_eq] at reaped alive
          exact absurd ((membersOf_setStatus _ _ _ _).symm.trans reaped)
            (Nat.pos_iff_ne_zero.mp alive)
      next => simp at taken
    next =>
      split at taken
      next =>
        split at taken <;> cases taken
        exact absurd (leaveHandle_children _ _ _) lost
      next => simp at taken
    next pid =>
      split at taken
      next =>
        obtain ⟨outcome, returned, rfl⟩ := Option.map_eq_some_iff.mp taken
        obtain ⟨child, present, rfl, _, report⟩ := waitpid_some returned
        rcases report with rfl | ⟨untraced, _⟩
        · have unlisted := (attributed child present rfl).2
          rw [members_eq, sweepChild_children] at reaped
          rw [members_eq] at alive
          have member := consistent.reaped_own present alive reaped
          subst member
          refine Or.inl ⟨?_, sweepChild_unlisted child.pid listed unlisted⟩
          rw [sweepChild_currentJob]
          exact unlisted
        · simp at untraced
      next => simp at taken
    next =>
      split at taken
      next =>
        split at taken <;> cases taken
        exact absurd rfl lost
      next => simp at taken

theorem Consistent.retiring_step {state next : ShellState} (consistent : Consistent state)
    (busy : state.handler ≠ .idle) {event : ShellEvent}
    (taken : Shell.shellStep state event = some next) {job : JobId}
    (retiring : Retiring state job) : Retiring next job := by
  cases event with
  | child event =>
    unfold Shell.shellStep Shell.childStep at taken
    dsimp only at taken
    split at taken
    all_goals
      split at taken <;> cases taken
      unfold Retiring at retiring ⊢
      rw [members_eq, membersOf_setStatus, ← members_eq]
      exact retiring
  | main event =>
    unfold Shell.shellStep Shell.mainStep at taken
    simp [busy] at taken
  | handler event =>
    unfold Shell.shellStep Shell.handlerStep at taken
    dsimp only at taken
    split at taken
    next =>
      split at taken
      next ready => exact absurd ready.1 busy
      next => simp at taken
    next pid =>
      split at taken
      next handle rest visiting =>
        obtain ⟨outcome, returned, rfl⟩ := Option.map_eq_some_iff.mp taken
        obtain ⟨child, present, rfl, matched, report⟩ := waitpid_some returned
        rcases retiring with retired | ⟨head, listed, none⟩
        · exact Or.inl retired
        · rw [visiting] at head
          simp only [Handler.head, Option.some.injEq] at head
          subst head
          have member := consistent.member_of_group (listed_owned listed) present matched
          rw [members_eq] at none
          exact absurd member (membersOf_eq_zero.mp none child present)
      next => simp at taken
    next =>
      split at taken
      next handle rest visiting =>
        split at taken <;> cases taken
        rcases retiring with retired | ⟨head, listed, none⟩
        · exact Or.inl (leaveHandle_keeps handle rest retired)
        · rw [visiting] at head
          simp only [Handler.head, Option.some.injEq] at head
          subst head
          have zero : sizeIsZero (state.jobs handle).pipelineSize := by
            rw [(consistent.counted handle listed).exact, none]
            rfl
          obtain ⟨before, after, accesses, split, left⟩ :=
            consistent.leaveHandle_eq visiting zero
          have nodup := consistent.nodup
          rw [split] at nodup
          rw [left]
          refine Or.inl ⟨?_, by simp⟩
          exact (List.nodup_cons.mp (List.perm_middle.nodup_iff.mp nodup)).1
      next => simp at taken
    next pid =>
      split at taken
      next visiting =>
        obtain ⟨outcome, returned, rfl⟩ := Option.map_eq_some_iff.mp taken
        rcases retiring with retired | ⟨head, _, _⟩
        · refine Or.inl ⟨fun listed => retired.1 ?_, sweepChild_keeps pid retired.2⟩
          rw [sweepChild_currentJob] at listed
          exact (removeJobHandle_sublist _ _ _).subset listed
        · simp [visiting, Handler.head] at head
      next => simp at taken
    next =>
      split at taken
      next visiting =>
        split at taken <;> cases taken
        rcases retiring with retired | ⟨head, _, _⟩
        · exact Or.inl retired
        · simp [visiting, Handler.head] at head
      next => simp at taken

theorem retired_at_return {state last : ShellState}
    (reached : Reaches shellStep AttributedSweep initialShell state) {job : JobId}
    (retiring : Retiring state job) (run : HandlerRun state last) : Retired last job := by
  obtain ⟨rest, idle⟩ := run
  have kept : Consistent last ∧ Retiring last job := by
    refine rest.invariant (fun state => Consistent state ∧ Retiring state job)
      ⟨Consistent.reached reached, retiring⟩ ?_
    intro middle event next known permitted taken
    exact ⟨known.1.shellStep permitted.1 taken, known.1.retiring_step permitted.2 taken known.2⟩
  rcases kept.2 with retired | ⟨head, _, _⟩
  · exact retired
  · simp [idle, Handler.head] at head

/-- Under attributed sweeps every listed job is accounted for in every state, and the run of the
handler that reaps its last member moves it to pending_removed_jobs before it returns. -/
theorem accounting_holds {state : ShellState}
    (reached : Reaches shellStep AttributedSweep initialShell state) :
    Accounted state ∧
      ∀ event next job, AttributedSweep state event → shellStep state event = some next →
        job ∈ state.currentJob → 0 < state.members job → next.members job = 0 →
          ∀ last, HandlerRun next last → Retired last job := by
  have consistent := Consistent.reached reached
  refine ⟨fun job listed => (consistent.counted job listed).exact, ?_⟩
  intro event next job attributed taken listed alive reaped last run
  have retiring := consistent.reaped_retiring attributed taken listed alive reaped
  exact retired_at_return (reached.next attributed taken) retiring run

def punctualExit : List ShellEvent :=
  [.main .unqueued, .main .removed, .main (.startJob (backgroundJob 1)), .main (.forked 100),
    .main .started, .child (.exited 100), .handler .delivered]

def stateAfter (events : List ShellEvent) : ShellState :=
  arrival shellStep AttributedSweep initialShell (punctualExit ++ events)

theorem accounting_holds_punctualExit :
    Retired (stateAfter [.handler (.polled (some 100)), .handler (.polled none),
      .handler (.swept none)]) 0 := by
  have taken : shellStep (stateAfter []) (.handler (.polled (some 100))) =
      some (stateAfter [.handler (.polled (some 100))]) := by rfl
  have passed : shellStep (stateAfter [.handler (.polled (some 100))]) (.handler (.polled none)) =
      some (stateAfter [.handler (.polled (some 100)), .handler (.polled none)]) := by rfl
  have returned : shellStep (stateAfter [.handler (.polled (some 100)), .handler (.polled none)])
      (.handler (.swept none)) = some (stateAfter [.handler (.polled (some 100)),
        .handler (.polled none), .handler (.swept none)]) := by rfl
  have run : HandlerRun (stateAfter [.handler (.polled (some 100))])
      (stateAfter [.handler (.polled (some 100)), .handler (.polled none),
        .handler (.swept none)]) :=
    ⟨(Reaches.refl.next (by decide +kernel) passed).next (by decide +kernel) returned, by rfl⟩
  exact (accounting_holds (reaches_arrival (punctualExit ++ []))).2 _ _ 0 (by decide +kernel) taken
    (by decide +kernel) (by decide +kernel) (by decide +kernel) _ run

def earlyExit : List ShellEvent :=
  [.main .unqueued, .main .removed, .main (.startJob (backgroundJob 2)), .main (.forked 100),
    .main (.forked 101), .child (.exited 101), .handler .delivered, .handler (.swept (some 101)),
    .handler (.swept none), .main .started]

theorem earlyExit_runs : ((run shellStep initialShell earlyExit).map fun state =>
    decide (Accounted state)) = some false := by decide +kernel

/-- Two stages, the second gone before the job is listed: one member, but pipeline_size is 2. -/
theorem accounting_fails :
    ¬ ∀ state, Reachable shellStep initialShell state → Accounted state := by
  intro claim
  obtain ⟨state, ran, broken⟩ := Option.map_eq_some_iff.mp earlyExit_runs
  exact of_decide_eq_false broken (claim state (reachable_of_run earlyExit ran))

end Akiso.Shell
