import Akiso.Shell.Orderly

set_option autoImplicit false

namespace Akiso.Shell

open Transition

inductive JobStatus where
  | stopped
  | done
  | running
  deriving DecidableEq, Repr

structure JobLine where
  index : Option Nat
  pgid : Nat
  status : JobStatus
  deriving DecidableEq, Repr

def printJob (index : Int) (job : Job) (ended : Bool) : JobLine where
  index := if 0 < index then some index.toNat else none
  pgid := job.pgid
  status := if job.stopped then .stopped else if ended then .done else .running

def printedLine (state : ShellState) : ShellEvent → Option (JobId × JobLine)
  | .main .printed =>
    match state.control with
    | .showing _ job => some (job, printJob (-1) (state.jobs job) false)
    | _ => none
  | .main .removed =>
    match state.control, state.pendingRemovedJobs with
    | .removing _, job :: _ => some (job, printJob (-1) (state.jobs job) true)
    | _, _ => none
  | _ => none

def reportedNow (state : ShellState) (event : ShellEvent) (job : JobId) : List JobStatus :=
  match printedLine state event with
  | some (other, line) => if other = job then [line.status] else []
  | none => []

def reportsOn (job : JobId) : ShellState → List ShellEvent → List JobStatus
  | _, [] => []
  | state, event :: rest =>
    match shellStep state event with
    | none => []
    | some next => reportedNow state event job ++ reportsOn job next rest

structure Retires (state next : ShellState) (job : JobId) : Prop where
  listed : job ∈ state.currentJob
  pending : job ∈ next.pendingRemovedJobs
  reaped : next.members job = 0

def PrintEnds (state : ShellState) : Prop :=
  state.handler = .idle ∧ (∃ ending, state.control = .removing ending) ∧
    state.pendingRemovedJobs = []

def Control.announcing : Control → Option JobId
  | .relisted job => some job
  | .showing _ job => some job
  | _ => none

def Queued (state : ShellState) (job : JobId) : Prop :=
  job ∈ state.pendingJobs ∨ state.control.announcing = some job

-- The flag is clear, and no announcement of the job is outstanding.
def Unmarked (state : ShellState) (job : JobId) : Prop :=
  (state.jobs job).stopped = false ∧ ¬ Queued state job

structure Aside (state : ShellState) (job : JobId) : Prop where
  unheld : state.control.held ≠ some job
  unlisted : job ∉ state.currentJob
  unvisited : job ∉ state.handler.handles
  known : job < state.nextJob

structure Leaves (state next : ShellState) (job : JobId) : Prop where
  aside : Aside next job
  cell : next.jobs job = state.jobs job
  removed : next.pendingRemovedJobs.count job = state.pendingRemovedJobs.count job
  queued : Queued next job ↔ Queued state job

inductive Turn (state next : ShellState) (job : JobId) : List JobStatus → Prop where
  | left : Leaves state next job → Turn state next job []
  | crashed : next.control = .crashed → Turn state next job []
  | announced : Aside next job → next.jobs job = state.jobs job →
      next.pendingRemovedJobs.count job = state.pendingRemovedJobs.count job →
      Queued state job → Turn state next job [(printJob (-1) (state.jobs job) false).status]
  | reported : Aside next job → next.jobs job = state.jobs job →
      next.pendingRemovedJobs.count job + 1 = state.pendingRemovedJobs.count job →
      (Queued next job ↔ Queued state job) →
      Turn state next job [(printJob (-1) (state.jobs job) true).status]

namespace Aside

variable {state next : ShellState} {job : JobId}

theorem goto (aside : Aside state job) {control : Control} (free : control.held = none)
    (here : state.control.announcing = none) (there : control.announcing = none) :
    Leaves state (state.goto control) job where
  aside := {
    unheld := by simp [ShellState.goto, free]
    unlisted := aside.unlisted
    unvisited := aside.unvisited
    known := aside.known }
  cell := rfl
  removed := rfl
  queued := by simp [Queued, ShellState.goto, here, there]

theorem childStep (aside : Aside state job) {event : ChildEvent}
    (taken : Shell.childStep state event = some next) : Leaves state next job := by
  unfold Shell.childStep at taken
  split at taken
  all_goals
    split at taken <;> cases taken
    exact ⟨⟨aside.unheld, aside.unlisted, aside.unvisited, aside.known⟩, rfl, rfl, Iff.rfl⟩

theorem leaveHandle (aside : Aside state job) {handle : JobId} {rest : List JobId}
    (visiting : state.handler = .visiting (handle :: rest)) :
    Leaves state (Shell.leaveHandle state handle rest) job := by
  have unvisited : job ∉ rest := fun member => aside.unvisited (by
    rw [visiting]
    exact List.mem_cons_of_mem _ member)
  unfold Shell.leaveHandle
  dsimp only
  split
  next =>
    have moved := (removeJobHandle_perm state.jobs (state.jobs handle).pgid
      state.currentJob).mem_iff (a := job)
    simp only [List.mem_append, aside.unlisted, iff_false, not_or] at moved
    refine ⟨⟨aside.unheld, moved.2, unvisited, aside.known⟩, rfl, ?_, Iff.rfl⟩
    simp [ShellState.use, List.count_append, List.count_eq_zero.mpr moved.1]
  next => exact ⟨⟨aside.unheld, aside.unlisted, unvisited, aside.known⟩, rfl, rfl, Iff.rfl⟩

theorem sweepChild (aside : Aside state job) (pid : Nat) :
    Leaves state (Shell.sweepChild state pid) job ∨
      (Shell.sweepChild state pid).control = .crashed := by
  have moved := (removeJobHandle_perm state.jobs pid state.currentJob).mem_iff (a := job)
  simp only [List.mem_append, aside.unlisted, iff_false, not_or] at moved
  unfold Shell.sweepChild
  dsimp only
  split
  next removed added =>
    refine .inl ⟨⟨aside.unheld, moved.2, aside.unvisited, aside.known⟩, rfl, ?_, Iff.rfl⟩
    unfold addFirst at added
    split at added
    next list other here =>
      cases added
      have apart : other ≠ job := by
        rintro rfl
        exact moved.1 (by simp [here])
      exact List.count_cons_of_ne apart
    next here empty =>
      cases added
      rw [empty]
    next => simp at added
  next => exact .inr rfl

theorem handlerStep (aside : Aside state job) {event : HandlerEvent}
    (taken : Shell.handlerStep state event = some next) :
    Leaves state next job ∨ next.control = .crashed := by
  unfold Shell.handlerStep at taken
  split at taken
  next =>
    split at taken <;> cases taken
    exact .inl ⟨⟨aside.unheld, aside.unlisted, aside.unlisted, aside.known⟩, rfl, rfl, Iff.rfl⟩
  next pid =>
    split at taken
    next handle rest visiting =>
      obtain ⟨outcome, _, rfl⟩ := Option.map_eq_some_iff.mp taken
      have apart : job ≠ handle := by
        rintro rfl
        exact aside.unvisited (by simp [visiting, Handler.handles])
      refine .inl ⟨⟨aside.unheld, aside.unlisted, aside.unvisited, aside.known⟩, ?_, rfl, Iff.rfl⟩
      simp [ShellState.setJob, ShellState.use, apart]
    next => simp at taken
  next =>
    split at taken
    next handle rest visiting =>
      split at taken <;> cases taken
      exact .inl (aside.leaveHandle visiting)
    next => simp at taken
  next pid =>
    split at taken
    next =>
      obtain ⟨outcome, _, rfl⟩ := Option.map_eq_some_iff.mp taken
      have swept : Aside { state with children := outcome.2 } job :=
        ⟨aside.unheld, aside.unlisted, aside.unvisited, aside.known⟩
      rcases swept.sweepChild pid with ⟨still, cell, removed, queued⟩ | crashed
      · exact .inl ⟨still, cell, removed, queued⟩
      · exact .inr crashed
    next => simp at taken
  next =>
    split at taken
    next visiting =>
      split at taken <;> cases taken
      exact .inl ⟨⟨aside.unheld, aside.unlisted, by simp [Handler.handles], aside.known⟩, rfl, rfl,
        Iff.rfl⟩
    next => simp at taken

theorem hold (aside : Aside state job) (control : Control) (unheld : control.held ≠ some job)
    (here : state.control.announcing = none) (there : control.announcing = none)
    (children : List Child) (accesses : List Access) {jobs : JobId → Job}
    (cell : jobs job = state.jobs job) :
    Leaves state { state with control, children, accesses, jobs } job :=
  ⟨⟨unheld, aside.unlisted, aside.unvisited, aside.known⟩, cell, rfl,
    by simp [Queued, here, there]⟩

theorem listJob (aside : Aside state job) {other : JobId} (apart : other ≠ job)
    (here : state.control.announcing = none) (jobs : JobId → Job)
    (cell : jobs job = state.jobs job) :
    Leaves state ({ Shell.listJob state other with jobs }.goto .terminal) job where
  aside := {
    unheld := by simp [ShellState.goto, Control.held]
    unlisted := by simpa [ShellState.goto, Shell.listJob, Ne.symm apart] using aside.unlisted
    unvisited := aside.unvisited
    known := aside.known }
  cell := cell
  removed := rfl
  queued := by
    have there : Control.terminal.announcing = none := rfl
    simp [Queued, ShellState.goto, Shell.listJob, there, here, Ne.symm apart]

theorem takeHandle (aside : Aside state job) (here : state.control = .command)
    (arguments : List (Option (List UInt8))) (argc : Nat) {holding : JobId → Control}
    (holds : ∀ other, holding other = .fetched other ∨ holding other = .moved other) :
    Turn state (Shell.takeHandle state arguments argc holding) job [] := by
  unfold Shell.takeHandle
  split
  next other rest found =>
    obtain ⟨before, after, split, rfl⟩ := getJobHandle_handle found
    have missing := aside.unlisted
    rw [split] at missing
    simp only [List.mem_append, List.mem_cons, not_or] at missing
    have held : (holding other).held = some other := by
      rcases holds other with same | same <;> rw [same] <;> rfl
    have now : state.control.announcing = none := by rw [here]; rfl
    have there : (holding other).announcing = none := by
      rcases holds other with same | same <;> rw [same] <;> rfl
    refine .left ⟨⟨?_, ?_, aside.unvisited, aside.known⟩, rfl, rfl, ?_⟩
    · rw [held]
      simpa using Ne.symm missing.2.1
    · simp [missing]
    · simp [Queued, ShellState.use, now, there]
  next => exact .left (aside.goto rfl (by rw [here]; rfl) rfl)
  next => exact .left (aside.goto rfl (by rw [here]; rfl) rfl)
  next => exact .crashed rfl
  next => exact .crashed rfl

theorem commandStep (aside : Aside state job) (here : state.control = .command)
    {event : MainEvent} (taken : Shell.commandStep state event = some next) :
    Turn state next job [] := by
  unfold Shell.commandStep at taken
  split at taken
  next started =>
    split at taken <;> cases taken
    have apart : job ≠ state.nextJob := Nat.ne_of_lt aside.known
    refine .left ⟨⟨?_, aside.unlisted, aside.unvisited, Nat.lt_succ_of_lt aside.known⟩, ?_, rfl, ?_⟩
    · simpa [Control.held] using Ne.symm apart
    · simp [ShellState.setJob, apart]
    · simp [Queued, ShellState.setJob, Control.announcing, here]
  next arguments argc =>
    cases taken
    exact aside.takeHandle here arguments argc fun _ => .inl rfl
  next arguments argc =>
    cases taken
    exact aside.takeHandle here arguments argc fun _ => .inr rfl
  next =>
    cases taken
    exact .left (aside.hold (.printing false) (by simp [Control.held]) (by rw [here]; rfl) rfl _ _
      rfl)
  next =>
    cases taken
    exact .left (aside.goto rfl (by rw [here]; rfl) rfl)
  next =>
    cases taken
    exact .left (aside.goto rfl (by rw [here]; rfl) rfl)
  next => simp at taken

theorem startStep (aside : Aside state job) {other : JobId} {first : Bool} {remaining : Nat}
    (here : state.control = .starting other first remaining) {event : MainEvent}
    (taken : Shell.startStep state other first remaining event = some next) :
    Leaves state next job := by
  have apart : other ≠ job := by
    rintro rfl
    exact aside.unheld (by rw [here]; rfl)
  unfold Shell.startStep at taken
  split at taken
  next =>
    split at taken <;> cases taken
    exact aside.hold (.starting other false _) (by simpa [Control.held] using apart)
      (by rw [here]; rfl) rfl _ _ (by simp [ShellState.setJob, Ne.symm apart])
  next =>
    cases taken
    unfold launchJob
    split
    next =>
      exact aside.hold (.waiting other .start) (by simpa [Control.held] using apart)
        (by rw [here]; rfl) rfl _ _ rfl
    next => exact aside.listJob apart (by rw [here]; rfl) _ rfl
  next =>
    cases taken
    exact aside.goto rfl (by rw [here]; rfl) rfl
  next => simp at taken

theorem waitStep (aside : Aside state job) {other : JobId} {wait : WaitState}
    (here : state.control = .waiting other wait) {event : MainEvent}
    (taken : Shell.waitStep state other wait event = some next) : Leaves state next job := by
  have apart : other ≠ job := by
    rintro rfl
    exact aside.unheld (by rw [here]; rfl)
  unfold Shell.waitStep at taken
  split at taken
  next =>
    obtain ⟨outcome, _, rfl⟩ := Option.map_eq_some_iff.mp taken
    have waited : Aside { state with children := outcome.2 } job :=
      ⟨aside.unheld, aside.unlisted, aside.unvisited, aside.known⟩
    unfold waitForFgJob
    dsimp only
    split
    next =>
      obtain ⟨still, cell, removed, queued⟩ := waited.listJob apart (by rw [here]; rfl)
        (Function.update state.jobs other { state.jobs other with
          fg := false, stopped := true }) (by simp [Ne.symm apart])
      exact ⟨still, cell, removed, queued⟩
    next =>
      exact aside.hold (.waiting other _) (by simpa [Control.held] using apart)
        (by rw [here]; rfl) rfl _ _ rfl
  next =>
    split at taken <;> cases taken
    exact aside.goto rfl (by rw [here]; rfl) rfl
  next => simp at taken

theorem fgStep (aside : Aside state job) {other : JobId} (here : state.control = .fetched other)
    {event : MainEvent} (taken : Shell.fgStep state other event = some next) :
    Leaves state next job := by
  have apart : other ≠ job := by
    rintro rfl
    exact aside.unheld (by rw [here]; rfl)
  unfold Shell.fgStep at taken
  split at taken
  next =>
    cases taken
    refine ⟨⟨by simp [Control.held], ?_, aside.unvisited, aside.known⟩, rfl, rfl,
      by simp [Queued, ShellState.use, Control.announcing, here]⟩
    simpa [Ne.symm apart] using aside.unlisted
  next =>
    cases taken
    exact aside.hold (.waiting other .start) (by simpa [Control.held] using apart)
      (by rw [here]; rfl) rfl _ _ (by simp [ShellState.setJob, ShellState.use, Ne.symm apart])
  next => simp at taken

theorem bgStep (aside : Aside state job) {other : JobId} (here : state.control = .moved other)
    {event : MainEvent} (taken : Shell.bgStep state other event = some next) :
    Leaves state next job := by
  have apart : other ≠ job := by
    rintro rfl
    exact aside.unheld (by rw [here]; rfl)
  unfold Shell.bgStep at taken
  split at taken
  next =>
    cases taken
    refine ⟨⟨by simp [Control.held], ?_, aside.unvisited, aside.known⟩, ?_, rfl, ?_⟩
    · simpa [Ne.symm apart] using aside.unlisted
    · simp [ShellState.setJob, ShellState.use, Ne.symm apart]
    · simp [Queued, ShellState.setJob, ShellState.use, Control.announcing, here, apart]
  next => simp at taken

theorem announceStep (aside : Aside state job) {other : JobId}
    (here : state.control = .relisted other) {event : MainEvent}
    (taken : Shell.announceStep state other event = some next) : Leaves state next job := by
  unfold Shell.announceStep at taken
  split at taken
  next =>
    cases taken
    exact ⟨⟨by simp [Control.held], aside.unlisted, aside.unvisited, aside.known⟩, rfl, rfl,
      by simp [Queued, Control.announcing, here, eq_comm]⟩
  next => simp at taken

theorem printStep (aside : Aside state job) {ending : Bool}
    (here : state.control = .printing ending) {event : MainEvent}
    (taken : Shell.printStep state ending event = some next) : Leaves state next job := by
  unfold Shell.printStep at taken
  split at taken
  next =>
    split at taken
    next other rest pending =>
      cases taken
      refine ⟨⟨by simp [Control.held], aside.unlisted, aside.unvisited, aside.known⟩, rfl, rfl, ?_⟩
      simp [Queued, Control.announcing, here, pending, eq_comm, or_comm]
    next =>
      cases taken
      exact aside.goto rfl (by rw [here]; rfl) rfl
  next => simp at taken

theorem showStep (aside : Aside state job) {ending : Bool} {other : JobId}
    (here : state.control = .showing ending other) {event : MainEvent}
    (taken : Shell.showStep state ending other event = some next) :
    Turn state next job (reportedNow state (.main event) job) := by
  unfold Shell.showStep at taken
  split at taken <;> cases taken
  have still : Aside { state.use [other] with control := .printing ending } job :=
    ⟨by simp [Control.held], aside.unlisted, aside.unvisited, aside.known⟩
  by_cases same : other = job
  next =>
    subst same
    have told : reportedNow state (.main .printed) other =
        [(printJob (-1) (state.jobs other) false).status] := by
      simp [reportedNow, printedLine, here]
    rw [told]
    exact .announced still rfl rfl (.inr (by rw [here]; rfl))
  next =>
    have quiet : reportedNow state (.main .printed) job = [] := by
      simp [reportedNow, printedLine, here, same]
    rw [quiet]
    exact .left ⟨still, rfl, rfl, by simp [Queued, ShellState.use, Control.announcing, here, same]⟩

theorem removeStep (aside : Aside state job) {ending : Bool}
    (here : state.control = .removing ending) {event : MainEvent}
    (taken : Shell.removeStep state ending event = some next) :
    Turn state next job (reportedNow state (.main event) job) := by
  unfold Shell.removeStep at taken
  split at taken
  next =>
    split at taken
    next other rest pending =>
      cases taken
      have still : Aside { state with
          pendingRemovedJobs := rest
          accesses := .destroyed other :: .used other :: state.accesses } job :=
        ⟨aside.unheld, aside.unlisted, aside.unvisited, aside.known⟩
      by_cases same : other = job
      next =>
        subst same
        have told : reportedNow state (.main .removed) other =
            [(printJob (-1) (state.jobs other) true).status] := by
          simp [reportedNow, printedLine, here, pending]
        rw [told]
        exact .reported still rfl (by simp [pending]) Iff.rfl
      next =>
        have quiet : reportedNow state (.main .removed) job = [] := by
          simp [reportedNow, printedLine, here, pending, same]
        rw [quiet]
        refine .left ⟨still, rfl, ?_, Iff.rfl⟩
        rw [pending]
        exact (List.count_cons_of_ne same).symm
    next pending =>
      cases taken
      have quiet : reportedNow state (.main .removed) job = [] := by
        simp [reportedNow, printedLine, here, pending]
      rw [quiet]
      refine .left (aside.goto ?_ (by rw [here]; rfl) ?_) <;> split <;> rfl
  next => simp at taken

theorem reapStep (aside : Aside state job) (here : state.control = .reaping) {event : MainEvent}
    (taken : Shell.reapStep state event = some next) : Leaves state next job := by
  unfold Shell.reapStep at taken
  split at taken
  next =>
    obtain ⟨outcome, _, rfl⟩ := Option.map_eq_some_iff.mp taken
    exact aside.hold state.control aside.unheld (by rw [here]; rfl)
      (by rw [here]; rfl) _ _ rfl
  next =>
    split at taken <;> cases taken
    exact aside.goto rfl (by rw [here]; rfl) rfl
  next => simp at taken

theorem drainStep (aside : Aside state job) (here : state.control = .draining)
    {event : MainEvent} (taken : Shell.drainStep state event = some next) :
    Leaves state next job := by
  unfold Shell.drainStep at taken
  split at taken
  next =>
    split at taken
    next other rest current =>
      cases taken
      have missing := aside.unlisted
      rw [current] at missing
      exact ⟨⟨aside.unheld, fun member => missing (List.mem_cons_of_mem _ member), aside.unvisited,
        aside.known⟩, rfl, rfl, Iff.rfl⟩
    next =>
      cases taken
      exact aside.goto rfl (by rw [here]; rfl) rfl
  next => simp at taken

theorem quiet {event : MainEvent} (showing : ∀ ending job, state.control ≠ .showing ending job)
    (removing : ∀ ending, state.control ≠ .removing ending) :
    reportedNow state (.main event) job = [] := by
  cases event <;> simp only [reportedNow, printedLine]
  split
  next line found =>
    split at found
    next here _ => exact absurd here (removing _)
    next => simp at found
  next => rfl

theorem mainStep (aside : Aside state job) {event : MainEvent}
    (taken : Shell.mainStep state event = some next) :
    Turn state next job (reportedNow state (.main event) job) := by
  unfold Shell.mainStep at taken
  split at taken
  next idle =>
    unfold controlStep at taken
    split at taken
    next here =>
      rw [quiet (by simp [here]) (by simp [here])]
      exact aside.commandStep here taken
    next here =>
      rw [quiet (by simp [here]) (by simp [here])]
      exact .left (aside.startStep here taken)
    next here =>
      rw [quiet (by simp [here]) (by simp [here])]
      exact .left (aside.waitStep here taken)
    next here =>
      rw [quiet (by simp [here]) (by simp [here])]
      unfold terminalStep at taken
      split at taken <;> cases taken
      · exact .left (aside.goto rfl (by rw [here]; rfl) rfl)
      · exact .left (aside.goto rfl (by rw [here]; rfl) rfl)
    next here =>
      rw [quiet (by simp [here]) (by simp [here])]
      exact .left (aside.fgStep here taken)
    next here =>
      rw [quiet (by simp [here]) (by simp [here])]
      exact .left (aside.bgStep here taken)
    next here =>
      rw [quiet (by simp [here]) (by simp [here])]
      exact .left (aside.announceStep here taken)
    next here =>
      rw [quiet (by simp [here]) (by simp [here])]
      exact .left (aside.printStep here taken)
    next here => exact aside.showStep here taken
    next here => exact aside.removeStep here taken
    next here =>
      rw [quiet (by simp [here]) (by simp [here])]
      split at taken <;> cases taken
      exact .left (aside.goto rfl (by rw [here]; rfl) rfl)
    next here =>
      rw [quiet (by simp [here]) (by simp [here])]
      exact .left (aside.drainStep here taken)
    next here =>
      rw [quiet (by simp [here]) (by simp [here])]
      exact .left (aside.reapStep here taken)
    next => simp at taken
    next => simp at taken
  next => simp at taken

theorem shellStep (aside : Aside state job) {event : ShellEvent}
    (taken : Shell.shellStep state event = some next) :
    Turn state next job (reportedNow state event job) := by
  cases event with
  | child event => exact .left (aside.childStep taken)
  | handler event =>
    rcases aside.handlerStep taken with left | crashed
    · exact .left left
    · exact .crashed crashed
  | main event => exact aside.mainStep taken

end Aside

section Run

variable {state next last : ShellState} {job : JobId} {events : List ShellEvent}

def endedStatus (job : Job) : JobStatus := (printJob (-1) job true).status

def announcedStatus (job : Job) : JobStatus := (printJob (-1) job false).status

/-- The reports on a job that is aside: one for each time it leaves pending_removed_jobs, and an
announcement if one was outstanding and no longer is. -/
structure Reported (state last : ShellState) (job : JobId) (reports : List JobStatus) : Prop where
  fewer : last.pendingRemovedJobs.count job ≤ state.pendingRemovedJobs.count job
  plain : ¬ Queued state job → ¬ Queued last job ∧
    reports = List.replicate
      (state.pendingRemovedJobs.count job - last.pendingRemovedJobs.count job)
      (endedStatus (state.jobs job))
  queued : Queued state job →
    Queued last job ∨ announcedStatus (state.jobs job) ∈ reports

theorem reports_run (aside : Aside state job) (ran : run shellStep state events = some last)
    (alive : last.control ≠ .crashed) : Reported state last job (reportsOn job state events) := by
  induction events generalizing state with
  | nil =>
    cases ran
    exact ⟨le_refl _, fun plain => ⟨plain, by simp [reportsOn]⟩, .inl⟩
  | cons event rest ih =>
    obtain ⟨next, taken, ran⟩ := run_cons ran
    simp only [reportsOn, taken]
    generalize shown : reportedNow state event job = now
    have turn := aside.shellStep taken
    rw [shown] at turn
    cases turn with
    | crashed crashed => exact absurd (crashed_run crashed ran) alive
    | left leaves =>
      have later := ih leaves.aside ran
      refine ⟨leaves.removed ▸ later.fewer, fun plain => ?_, fun queued => ?_⟩
      · have quiet := later.plain (leaves.queued.not.mpr plain)
        rwa [leaves.removed, leaves.cell] at quiet
      · have loud := later.queued (leaves.queued.mpr queued)
        rwa [leaves.cell] at loud
    | announced still cell removed queued =>
      have later := ih still ran
      refine ⟨removed ▸ later.fewer, fun plain => absurd queued plain, fun _ => .inr ?_⟩
      exact List.mem_cons_self
    | reported still cell removed same =>
      have later := ih still ran
      have fewer := later.fewer
      refine ⟨by omega, fun plain => ?_, fun queued => ?_⟩
      · obtain ⟨unqueued, quiet⟩ := later.plain (same.not.mpr plain)
        refine ⟨unqueued, ?_⟩
        have count : state.pendingRemovedJobs.count job - last.pendingRemovedJobs.count job =
            next.pendingRemovedJobs.count job - last.pendingRemovedJobs.count job + 1 := by omega
        rw [quiet, cell, count, List.replicate_succ]
        rfl
      · rcases later.queued (same.mpr queued) with waiting | told
        · exact .inl waiting
        · exact .inr (List.mem_append_right _ (cell ▸ told))

theorem endedStatus_done (job : Job) : endedStatus job = .done ↔ job.stopped = false := by
  unfold endedStatus printJob
  cases job.stopped <;> simp

theorem announcedStatus_ne_done (job : Job) : announcedStatus job ≠ .done := by
  unfold announcedStatus printJob
  cases job.stopped <;> simp

theorem Retires.aside (orderly : Orderly state) {event : HandlerEvent}
    (taken : handlerStep state event = some next) (retires : Retires state next job) :
    Aside next job ∧ next.pendingRemovedJobs.count job = 1 ∧ next.jobs = state.jobs := by
  have live := orderly.live_next taken
  obtain ⟨-, lists, apart⟩ := List.nodup_append.mp live.exclusive
  obtain ⟨-, removed, different⟩ := List.nodup_append.mp lists
  have unlisted : job ∉ next.currentJob := fun member =>
    different job member job retires.pending rfl
  refine ⟨⟨fun held => ?_, unlisted, ?_, ?_⟩, ?_, ?_⟩
  · exact apart job (by simp [held]) job (List.mem_append_right _ retires.pending) rfl
  · cases walking : next.handler with
    | idle => simp [Handler.handles]
    | visiting handles =>
      have suffix := (orderly.handlerStep taken).walks handles walking
      exact fun member => unlisted (suffix.subset member)
  · apply live.known
    simp [ShellState.references, retires.pending]
  · exact List.count_eq_one_of_mem removed retires.pending
  · rcases (handlerStep_frame taken).jobs with same | listed
    · exact same
    · rw [listed] at unlisted
      exact absurd retires.listed unlisted

theorem PrintEnds.settled (reached : Reachable shellStep initialShell state)
    (ends : PrintEnds state) : ¬ Queued state job ∧ state.pendingRemovedJobs.count job = 0 := by
  obtain ⟨-, ⟨ending, here⟩, removed⟩ := ends
  have drained := (Orderly.reached reached).drained ending here
  constructor
  · rintro (pending | relisted)
    · simp [drained] at pending
    · simp [here, Control.announcing] at relisted
  · simp [removed]

/-- From the step that moves a job to pending_removed_jobs up to the end of any print_pending_jobs
the job is reported once, as Done, exactly if it was unmarked when it was moved. -/
theorem reported_done_iff {event : HandlerEvent}
    (reached : Reachable shellStep initialShell state)
    (taken : shellStep state (.handler event) = some next) (retires : Retires state next job)
    (ran : run shellStep next events = some last) (ends : PrintEnds last) :
    reportsOn job next events = [.done] ↔ Unmarked state job := by
  have onward : Reachable shellStep initialShell next := reached.next True.intro taken
  have arrived : Reachable shellStep initialShell last :=
    onward.trans (reachable_of_run events ran)
  have alive : last.control ≠ .crashed := by
    obtain ⟨-, ⟨ending, here⟩, -⟩ := ends
    simp [here]
  have moved : next.control ≠ .crashed := fun crashed => alive (crashed_run crashed ran)
  have frame := handlerStep_frame taken
  obtain ⟨aside, once, cells⟩ := retires.aside (Orderly.reached reached) taken
  obtain ⟨unqueued, none⟩ : ¬ Queued last job ∧ last.pendingRemovedJobs.count job = 0 :=
    ends.settled arrived
  have reported := reports_run aside ran alive
  have queue : Queued next job ↔ Queued state job := by
    rw [Queued, Queued, frame.pending, frame.control.resolve_right moved]
  by_cases queued : Queued state job
  next =>
    have told := (reported.queued (queue.mpr queued)).resolve_left unqueued
    refine iff_of_false (fun only => ?_) fun unmarked => unmarked.2 queued
    rw [only, List.mem_singleton] at told
    exact announcedStatus_ne_done _ told
  next =>
    obtain ⟨-, reports⟩ := reported.plain (queue.not.mpr queued)
    rw [reports, once, none, cells, Unmarked, ← endedStatus_done]
    simp [queued]

end Run

def backgroundAnnounced : List ShellEvent :=
  [.main .unqueued, .main .removed, .main (.startJob (backgroundJob 1)), .main (.forked 100),
    .main .started, .main .regained, .main .unqueued, .main .printed, .main .unqueued,
    .main .removed]

def endNoticed : List ShellEvent :=
  [.child (.exited 100), .handler .delivered, .handler (.polled (some 100))]

def stopNoticed : List ShellEvent :=
  [.child (.stopped 100), .handler .delivered, .handler (.polled (some 100)),
    .handler (.polled none), .handler (.swept none)]

def nextPrompt : List ShellEvent :=
  [.handler (.swept none), .main .skipped, .main .unqueued, .main .removed]

theorem reported_done_iff_ended :
    ∃ state next last, shellStep state (.handler (.polled none)) = some next ∧
      Retires state next 0 ∧ run shellStep next nextPrompt = some last ∧ PrintEnds last ∧
      Unmarked state 0 ∧ reportsOn 0 next nextPrompt = [.done] := by
  obtain ⟨state, reached, next, taken, last, ran, listed, pending, reaped, idle, control, removed,
      stopped, announced, free⟩ :
      ∃ state, run shellStep initialShell (backgroundAnnounced ++ endNoticed) = some state ∧
        ∃ next, shellStep state (.handler (.polled none)) = some next ∧
        ∃ last, run shellStep next nextPrompt = some last ∧ 0 ∈ state.currentJob ∧
          0 ∈ next.pendingRemovedJobs ∧ next.members 0 = 0 ∧ last.handler = .idle ∧
          last.control = .removing false ∧ last.pendingRemovedJobs = [] ∧
          (state.jobs 0).stopped = false ∧ 0 ∉ state.pendingJobs ∧ state.control = .command := by
    refine ⟨_, rfl, _, rfl, _, rfl, ?_⟩
    decide +kernel
  have retires : Retires state next 0 := ⟨listed, pending, reaped⟩
  have ends : PrintEnds last := ⟨idle, ⟨false, control⟩, removed⟩
  have unmarked : Unmarked state 0 := by
    refine ⟨stopped, ?_⟩
    rintro (queued | relisted)
    · exact announced queued
    · simp [free, Control.announcing] at relisted
  exact ⟨state, next, last, taken, retires, ran, ends, unmarked,
    (reported_done_iff (reachable_of_run _ reached) taken retires ran ends).mpr unmarked⟩

theorem reported_done_fails :
    ¬ ∀ (state next last : ShellState) (event : HandlerEvent) (job : JobId)
      (events : List ShellEvent), Reachable shellStep initialShell state →
      shellStep state (.handler event) = some next → Retires state next job →
      run shellStep next events = some last → PrintEnds last →
      reportsOn job next events = [.done] := by
  intro claim
  obtain ⟨state, reached, next, taken, last, ran, listed, pending, reaped, idle, control, removed,
      reports⟩ :
      ∃ state, run shellStep initialShell (backgroundAnnounced ++ stopNoticed ++ endNoticed) =
          some state ∧
        ∃ next, shellStep state (.handler (.polled none)) = some next ∧
        ∃ last, run shellStep next nextPrompt = some last ∧ 0 ∈ state.currentJob ∧
          0 ∈ next.pendingRemovedJobs ∧ next.members 0 = 0 ∧ last.handler = .idle ∧
          last.control = .removing false ∧ last.pendingRemovedJobs = [] ∧
          reportsOn 0 next nextPrompt = [.stopped] := by
    refine ⟨_, rfl, _, rfl, _, rfl, ?_⟩
    decide +kernel
  have done := claim state next last _ 0 nextPrompt (reachable_of_run _ reached) taken
    ⟨listed, pending, reaped⟩ ran ⟨idle, ⟨false, control⟩, removed⟩
  simp [reports] at done

end Akiso.Shell
