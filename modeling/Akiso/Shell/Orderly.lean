import Akiso.Shell.Liveness

set_option autoImplicit false

namespace Akiso.Shell

open Transition

def Control.inCleanup : Control → Bool
  | .printing ending => ending
  | .showing ending _ => ending
  | .removing ending => ending
  | .draining => true
  | .reaping => true
  | .finished => true
  | .crashed => true
  | _ => false

/-- The main program goes on: cleanup is never left, and is entered by one step only. -/
structure Proceeds (state next : ShellState) (event : MainEvent) : Prop where
  handler : next.handler = .idle
  inCleanup : state.control.inCleanup = true → next.control.inCleanup = true
  cleaned : event = .cleaned → next.control.inCleanup = true
  removing : ∀ ending, next.control = .removing ending →
    next.pendingJobs = [] ∨ state.control = .removing ending ∧ next.pendingJobs = state.pendingJobs

section Proceed

variable {state next : ShellState} {event : MainEvent}

theorem takeHandle_proceeds (idle : state.handler = .idle) (here : state.control = .command)
    (arguments : List (Option (List UInt8))) (argc : Nat) {holding : JobId → Control}
    (holds : ∀ other, holding other = .fetched other ∨ holding other = .moved other)
    (event : MainEvent) (other : event ≠ .cleaned) :
    Proceeds state (takeHandle state arguments argc holding) event := by
  unfold takeHandle
  split
  next job rest _ =>
    refine ⟨idle, by simp [here, Control.inCleanup], fun same => absurd same other,
      fun ending same => ?_⟩
    rcases holds job with held | held <;> simp [held] at same
  next => exact ⟨idle, by simp [here, Control.inCleanup], fun same => absurd same other, nofun⟩
  next => exact ⟨idle, by simp [here, Control.inCleanup], fun same => absurd same other, nofun⟩
  next => exact ⟨rfl, fun _ => rfl, fun _ => rfl, nofun⟩
  next => exact ⟨rfl, fun _ => rfl, fun _ => rfl, nofun⟩

theorem commandStep_proceeds (idle : state.handler = .idle) (here : state.control = .command)
    (taken : commandStep state event = some next) : Proceeds state next event := by
  unfold commandStep at taken
  split at taken
  next =>
    split at taken <;> cases taken
    exact ⟨idle, by simp [here, Control.inCleanup], nofun, nofun⟩
  next =>
    cases taken
    exact takeHandle_proceeds idle here _ _ (fun _ => .inl rfl) _ nofun
  next =>
    cases taken
    exact takeHandle_proceeds idle here _ _ (fun _ => .inr rfl) _ nofun
  all_goals
    cases taken
    try exact ⟨idle, by simp [here, Control.inCleanup], nofun, nofun⟩

theorem startStep_proceeds (idle : state.handler = .idle) {job : JobId} {first : Bool}
    {remaining : Nat} (here : state.control = .starting job first remaining)
    (taken : startStep state job first remaining event = some next) :
    Proceeds state next event := by
  unfold startStep at taken
  split at taken
  next =>
    split at taken <;> cases taken
    exact ⟨idle, by simp [here, Control.inCleanup], nofun, nofun⟩
  next =>
    cases taken
    unfold launchJob
    split <;> exact ⟨idle, by simp [here, Control.inCleanup], nofun, nofun⟩
  next =>
    cases taken
    exact ⟨idle, by simp [here, Control.inCleanup], nofun, nofun⟩
  next => simp at taken

theorem waitStep_proceeds (idle : state.handler = .idle) {job : JobId} {wait : WaitState}
    (here : state.control = .waiting job wait)
    (taken : waitStep state job wait event = some next) : Proceeds state next event := by
  unfold waitStep at taken
  split at taken
  next =>
    obtain ⟨outcome, _, rfl⟩ := Option.map_eq_some_iff.mp taken
    unfold waitForFgJob
    dsimp only
    split <;> exact ⟨idle, by simp [here, Control.inCleanup], nofun, nofun⟩
  next =>
    split at taken <;> cases taken
    exact ⟨idle, by simp [here, Control.inCleanup], nofun, nofun⟩
  next => simp at taken

theorem printStep_proceeds (idle : state.handler = .idle) {ending : Bool}
    (here : state.control = .printing ending) (taken : printStep state ending event = some next) :
    Proceeds state next event := by
  unfold printStep at taken
  split at taken
  next =>
    split at taken
    next =>
      cases taken
      exact ⟨idle, by simp [here, Control.inCleanup], nofun, nofun⟩
    next none =>
      cases taken
      exact ⟨idle, by simp [here, ShellState.goto, Control.inCleanup], nofun, fun _ _ => .inl none⟩
  next => simp at taken

theorem showStep_proceeds (idle : state.handler = .idle) {ending : Bool} {job : JobId}
    (here : state.control = .showing ending job)
    (taken : showStep state ending job event = some next) : Proceeds state next event := by
  unfold showStep at taken
  split at taken <;> cases taken
  exact ⟨idle, by simp [here, Control.inCleanup], nofun, nofun⟩

theorem removeStep_proceeds (idle : state.handler = .idle) {ending : Bool}
    (here : state.control = .removing ending) (taken : removeStep state ending event = some next) :
    Proceeds state next event := by
  unfold removeStep at taken
  split at taken
  next =>
    split at taken
    next =>
      cases taken
      exact ⟨idle, fun within => within, nofun, fun other same => .inr ⟨same, rfl⟩⟩
    next =>
      cases taken
      refine ⟨idle, fun within => ?_, nofun, fun other same => ?_⟩
      · have last : ending = true := by simpa [here, Control.inCleanup] using within
        simp [ShellState.goto, last, Control.inCleanup]
      · cases ending <;> simp [ShellState.goto] at same
  next => simp at taken

theorem cleanup_proceeds (idle : state.handler = .idle)
    (taken : drainStep state event = some next ∧ state.control = .draining ∨
      reapStep state event = some next ∧ state.control = .reaping) : Proceeds state next event := by
  rcases taken with ⟨taken, here⟩ | ⟨taken, here⟩
  next =>
    unfold drainStep at taken
    split at taken
    next =>
      split at taken <;> cases taken
      · exact ⟨idle, fun within => within, nofun, fun other same => by simp [here] at same⟩
      · exact ⟨idle, fun _ => rfl, nofun, nofun⟩
    next => simp at taken
  next =>
    unfold reapStep at taken
    split at taken
    next =>
      obtain ⟨outcome, _, rfl⟩ := Option.map_eq_some_iff.mp taken
      exact ⟨idle, fun within => within, nofun, fun other same => by simp [here] at same⟩
    next =>
      split at taken <;> cases taken
      exact ⟨idle, fun _ => rfl, nofun, nofun⟩
    next => simp at taken

theorem mainStep_proceeds (taken : mainStep state event = some next) :
    Proceeds state next event := by
  unfold mainStep at taken
  split at taken
  next idle =>
    unfold controlStep at taken
    split at taken
    next here => exact commandStep_proceeds idle here taken
    next here => exact startStep_proceeds idle here taken
    next here => exact waitStep_proceeds idle here taken
    next here =>
      unfold terminalStep at taken
      split at taken <;> cases taken <;>
        exact ⟨idle, by simp [here, Control.inCleanup], nofun, nofun⟩
    next here =>
      unfold fgStep at taken
      split at taken <;> cases taken <;>
        exact ⟨idle, by simp [here, Control.inCleanup], nofun, nofun⟩
    next here =>
      unfold bgStep at taken
      split at taken <;> cases taken
      exact ⟨idle, by simp [here, Control.inCleanup], nofun, nofun⟩
    next here =>
      unfold announceStep at taken
      split at taken <;> cases taken
      exact ⟨idle, by simp [here, Control.inCleanup], nofun, nofun⟩
    next here => exact printStep_proceeds idle here taken
    next here => exact showStep_proceeds idle here taken
    next here => exact removeStep_proceeds idle here taken
    next here =>
      split at taken <;> cases taken
      exact ⟨idle, fun _ => rfl, fun _ => rfl, nofun⟩
    next here => exact cleanup_proceeds idle (.inl ⟨taken, here⟩)
    next here => exact cleanup_proceeds idle (.inr ⟨taken, here⟩)
    next => simp at taken
    next => simp at taken
  next => simp at taken

end Proceed

/-- What every run keeps: the handler walks on through current_job, everything is as it should be up
to cleanup, and nothing waits to be announced while pending_removed_jobs is printed. -/
structure Orderly (state : ShellState) : Prop where
  walks : ∀ handles, state.handler = .visiting handles → handles <:+ state.currentJob
  early : state.control.inCleanup = false → Live state
  masked : state.handler ≠ .idle → state.control.inCleanup = false
  drained : ∀ ending, state.control = .removing ending → state.pendingJobs = []

namespace Orderly

variable {state next : ShellState}

theorem walk (orderly : Orderly state) (pending : next.pendingJobs = state.pendingJobs)
    (control : next.control = state.control) (live : Live state → Live next)
    (walks : ∀ handles, next.handler = .visiting handles → handles <:+ next.currentJob)
    (masked : next.handler ≠ .idle → state.control.inCleanup = false) : Orderly next where
  walks := walks
  early before := live (orderly.early (control ▸ before))
  masked busy := control ▸ masked busy
  drained ending same := by
    rw [pending]
    exact orderly.drained ending (control ▸ same)

theorem crash (state : ShellState) : Orderly state.crash where
  walks := nofun
  early := nofun
  masked busy := absurd rfl busy
  drained := nofun

theorem leaveHandle (orderly : Orderly state) {job : JobId} {rest : List JobId}
    (visiting : state.handler = .visiting (job :: rest))
    (live : Live state → Live (Shell.leaveHandle state job rest)) :
    Orderly (Shell.leaveHandle state job rest) := by
  obtain ⟨kept, split⟩ := orderly.walks _ visiting
  have busy := orderly.masked (by simp [visiting])
  revert live
  unfold Shell.leaveHandle
  dsimp only
  split
  next =>
    intro live
    refine orderly.walk rfl rfl live (fun handles same => ?_) fun _ => busy
    obtain ⟨removed, before, removal⟩ := removeJobHandle_rest state.jobs _ kept rest rfl
    rw [split] at removal
    simp only [Handler.visiting.injEq] at same
    simp only [removal]
    exact same ▸ List.suffix_append before rest
  next =>
    intro live
    refine orderly.walk rfl rfl live (fun handles same => ?_) fun _ => busy
    simp only [Handler.visiting.injEq] at same
    exact same ▸ (List.suffix_cons job rest).trans ⟨kept, split⟩

theorem sweepChild (orderly : Orderly state) (children : List Child) (pid : Nat)
    (visiting : state.handler = .visiting [])
    (live : Live state → Live (Shell.sweepChild { state with children } pid)) :
    Orderly (Shell.sweepChild { state with children } pid) := by
  have busy := orderly.masked (by simp [visiting])
  revert live
  unfold Shell.sweepChild
  dsimp only
  split
  next =>
    intro live
    refine orderly.walk rfl rfl live (fun handles same => ?_) fun _ => busy
    obtain rfl : handles = [] := by simpa [ShellState.use, visiting, eq_comm] using same
    exact List.nil_suffix
  next => exact fun _ => crash _

theorem handlerStep (orderly : Orderly state) {event : HandlerEvent}
    (taken : Shell.handlerStep state event = some next) : Orderly next := by
  have live (alive : Live state) : Live next := alive.handlerStep taken
  unfold Shell.handlerStep at taken
  split at taken
  next =>
    split at taken
    next ready =>
      cases taken
      refine orderly.walk rfl rfl live (fun handles same => ?_) fun _ => ?_
      · simp only [Handler.visiting.injEq] at same
        exact same ▸ List.suffix_refl _
      · cases here : state.control <;> simp_all [Control.unmasked, Control.inCleanup]
    next => simp at taken
  next pid =>
    split at taken
    next visiting =>
      obtain ⟨outcome, _, rfl⟩ := Option.map_eq_some_iff.mp taken
      exact orderly.walk rfl rfl live orderly.walks orderly.masked
    next => simp at taken
  next =>
    split at taken
    next job rest visiting =>
      split at taken <;> cases taken
      exact orderly.leaveHandle visiting live
    next => simp at taken
  next pid =>
    split at taken
    next visiting =>
      obtain ⟨outcome, _, rfl⟩ := Option.map_eq_some_iff.mp taken
      exact orderly.sweepChild outcome.2 pid visiting live
    next => simp at taken
  next =>
    split at taken
    next =>
      split at taken <;> cases taken
      exact orderly.walk rfl rfl live (fun handles same => by simp at same)
        fun busy => absurd rfl busy
    next => simp at taken

theorem shellStep (orderly : Orderly state) {event : ShellEvent}
    (taken : Shell.shellStep state event = some next) : Orderly next := by
  cases event with
  | child event =>
    have live (alive : Live state) : Live next := alive.childStep taken
    unfold Shell.shellStep Shell.childStep at taken
    dsimp only at taken
    split at taken
    all_goals
      split at taken <;> cases taken
      exact orderly.walk rfl rfl live orderly.walks orderly.masked
  | handler event => exact orderly.handlerStep taken
  | main event =>
    have proceeds := mainStep_proceeds taken
    constructor
    next =>
      intro handles same
      rw [proceeds.handler] at same
      simp at same
    next =>
      intro early
      have before : state.control.inCleanup = false := by
        by_contra late
        have still := proceeds.inCleanup (by simpa using late)
        simp [still] at early
      refine (orderly.early before).shellStep (fun cleaned => ?_) taken
      have ended := proceeds.cleaned (by simpa using cleaned)
      simp [ended] at early
    next => exact fun busy => absurd proceeds.handler busy
    next =>
      intro ending same
      rcases proceeds.removing ending same with none | ⟨before, kept⟩
      · exact none
      · rw [kept]
        exact orderly.drained ending before

theorem initial : Orderly initialShell where
  walks := nofun
  early _ := Live.initial
  masked busy := absurd rfl busy
  drained _ _ := rfl

theorem reached (run : Reachable Shell.shellStep initialShell state) : Orderly state :=
  run.invariant Orderly initial fun _ _ _ orderly _ taken => orderly.shellStep taken

end Orderly

section Handler

variable {state next last : ShellState} {events : List ShellEvent}

structure HandlerFrame (state next : ShellState) : Prop where
  pending : next.pendingJobs = state.pendingJobs
  control : next.control = state.control ∨ next.control = .crashed
  jobs : next.jobs = state.jobs ∨ next.currentJob = state.currentJob
  busy : state.handler ≠ .idle ∨ next.handler ≠ .idle

theorem handlerStep_frame {event : HandlerEvent} (taken : handlerStep state event = some next) :
    HandlerFrame state next := by
  unfold handlerStep at taken
  split at taken
  next =>
    split at taken <;> cases taken
    exact ⟨rfl, .inl rfl, .inl rfl, .inr (by simp)⟩
  next =>
    split at taken
    next visiting =>
      obtain ⟨outcome, _, rfl⟩ := Option.map_eq_some_iff.mp taken
      exact ⟨rfl, .inl rfl, .inr rfl, .inl (by simp [visiting])⟩
    next => simp at taken
  next =>
    split at taken
    next visiting =>
      split at taken <;> cases taken
      unfold leaveHandle
      dsimp only
      split <;> exact ⟨rfl, .inl rfl, .inl rfl, .inl (by simp [visiting])⟩
    next => simp at taken
  next =>
    split at taken
    next visiting =>
      obtain ⟨outcome, _, rfl⟩ := Option.map_eq_some_iff.mp taken
      unfold sweepChild
      dsimp only
      split
      next => exact ⟨rfl, .inl rfl, .inl rfl, .inl (by simp [visiting])⟩
      next => exact ⟨rfl, .inr rfl, .inl rfl, .inl (by simp [visiting])⟩
    next => simp at taken
  next =>
    split at taken
    next visiting =>
      split at taken <;> cases taken
      exact ⟨rfl, .inl rfl, .inl rfl, .inl (by simp [visiting])⟩
    next => simp at taken

theorem Orderly.live_next (orderly : Orderly state) {event : HandlerEvent}
    (taken : Shell.handlerStep state event = some next) : Live next := by
  have onward := orderly.handlerStep taken
  have frame := handlerStep_frame taken
  rcases frame.busy with busy | busy
  · exact (orderly.early (orderly.masked busy)).handlerStep taken
  · exact onward.early (onward.masked busy)

theorem crashed_step {event : ShellEvent} (crashed : state.control = .crashed)
    (taken : shellStep state event = some next) : next.control = .crashed := by
  cases event with
  | child event =>
    unfold shellStep childStep at taken
    dsimp only at taken
    split at taken
    all_goals
      split at taken <;> cases taken
      exact crashed
  | handler event =>
    rcases (handlerStep_frame taken).control with same | crashes
    · exact same.trans crashed
    · exact crashes
  | main event =>
    unfold shellStep mainStep at taken
    dsimp only at taken
    split at taken
    next => simp [controlStep, crashed] at taken
    next => simp at taken

theorem crashed_run (crashed : state.control = .crashed)
    (ran : run shellStep state events = some last) : last.control = .crashed := by
  induction events generalizing state with
  | nil =>
    cases ran
    exact crashed
  | cons event rest ih =>
    obtain ⟨next, taken, ran⟩ := run_cons ran
    exact ih (crashed_step crashed taken) ran

end Handler

end Akiso.Shell
