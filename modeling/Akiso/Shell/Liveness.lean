import Akiso.Shell.JobControl

set_option autoImplicit false

namespace Akiso.Shell

open Transition

-- cleanup, reached by the longjmp, starts with no listed job still waiting to be announced.
def ReclaimedApart (state : ShellState) (event : ShellEvent) : Prop :=
  event = .main .cleaned → state.control = .leaving true →
    ∀ job ∈ state.currentJob, job ∉ state.pendingJobs

instance (state : ShellState) (event : ShellEvent) : Decidable (ReclaimedApart state event) :=
  inferInstanceAs (Decidable (event = .main .cleaned → state.control = .leaving true →
    ∀ job ∈ state.currentJob, job ∉ state.pendingJobs))

def Control.mentioned : Control → Option JobId
  | .relisted job => some job
  | .showing _ job => some job
  | control => control.held

def Handler.handles : Handler → List JobId
  | .idle => []
  | .visiting handles => handles

def Control.announced : Control → Bool
  | .command => true
  | .starting _ _ _ => true
  | .waiting _ _ => true
  | .fetched _ => true
  | .moved _ => true
  | .relisted _ => true
  | .removing _ => true
  | .leaving jumped => !jumped
  | _ => false

def ShellState.references (state : ShellState) : List JobId :=
  state.control.mentioned.toList ++ state.handler.handles ++ state.currentJob ++
    state.pendingJobs ++ state.pendingRemovedJobs

def ShellState.exclusive (state : ShellState) : List JobId :=
  state.control.held.toList ++ (state.currentJob ++ state.pendingRemovedJobs)

structure Live (state : ShellState) : Prop where
  safe : LifetimeSafe state.accesses
  alive : ∀ job ∈ state.references, .destroyed job ∉ state.accesses
  known : ∀ job ∈ state.references, job < state.nextJob
  past : ∀ job, .destroyed job ∈ state.accesses → job < state.nextJob
  exclusive : state.exclusive.Nodup
  announced : state.control.announced = true → state.pendingJobs = []
  apart : state.control = .draining → ∀ job ∈ state.currentJob, job ∉ state.pendingJobs

theorem destroyed_mem_used {job : JobId} {used : List JobId} {accesses : List Access} :
    .destroyed job ∈ used.map .used ++ accesses ↔ .destroyed job ∈ accesses := by
  simp

theorem perm_moved {current rest removed others stored : List JobId}
    (moved : (removed ++ rest).Perm current) (kept : stored.Perm (removed ++ others)) :
    (rest ++ stored).Perm (current ++ others) := by
  have regrouped : (rest ++ (removed ++ others)).Perm (removed ++ rest ++ others) := by
    rw [← List.append_assoc]
    exact List.perm_append_comm.append_right others
  exact (kept.append_left rest).trans (regrouped.trans (moved.append_right others))

namespace Live

variable {state next : ShellState}

theorem proceed (live : Live state) (used : List JobId)
    (accesses : next.accesses = used.map .used ++ state.accesses)
    (looked : used ⊆ state.references) (references : next.references ⊆ state.references)
    (nextJob : next.nextJob = state.nextJob) (exclusive : next.exclusive.Nodup)
    (announced : next.control.announced = true → next.pendingJobs = [])
    (apart : next.control = .draining → ∀ job ∈ next.currentJob, job ∉ next.pendingJobs) :
    Live next where
  safe := by
    rw [accesses]
    exact lifetimeSafe_used live.safe used fun job member => live.alive job (looked member)
  alive job member := by
    rw [accesses, destroyed_mem_used]
    exact live.alive job (references member)
  known job member := nextJob ▸ live.known job (references member)
  past job destroyed := by
    rw [accesses, destroyed_mem_used] at destroyed
    exact nextJob ▸ live.past job destroyed
  exclusive := exclusive
  announced := announced
  apart := apart

theorem destroy (live : Live state) {job : JobId}
    (accesses : next.accesses = .destroyed job :: .used job :: state.accesses)
    (looked : job ∈ state.references) (references : next.references ⊆ state.references)
    (absent : job ∉ next.references) (nextJob : next.nextJob = state.nextJob)
    (exclusive : next.exclusive.Nodup)
    (announced : next.control.announced = true → next.pendingJobs = [])
    (apart : next.control = .draining → ∀ job ∈ next.currentJob, job ∉ next.pendingJobs) :
    Live next where
  safe := by
    rw [accesses]
    have alive := live.alive job looked
    exact ⟨by simpa [Access.job] using alive, by simpa [Access.job] using alive, live.safe⟩
  alive other member destroyed := by
    rw [accesses] at destroyed
    simp only [List.mem_cons, Access.destroyed.injEq, reduceCtorEq, false_or] at destroyed
    rcases destroyed with same | destroyed
    · exact absent (same ▸ member)
    · exact live.alive other (references member) destroyed
  known other member := nextJob ▸ live.known other (references member)
  past other destroyed := by
    rw [accesses] at destroyed
    simp only [List.mem_cons, Access.destroyed.injEq, reduceCtorEq, false_or] at destroyed
    rcases destroyed with same | destroyed
    · exact same ▸ nextJob ▸ live.known job looked
    · exact nextJob ▸ live.past other destroyed
  exclusive := exclusive
  announced := announced
  apart := apart

theorem goto (live : Live state) {control : Control} (free : control.mentioned = none)
    (announced : control.announced = true → state.pendingJobs = [])
    (apart : control = .draining → ∀ job ∈ state.currentJob, job ∉ state.pendingJobs) :
    Live (state.goto control) := by
  have unheld : control.held = none := by
    cases control <;> simp_all [Control.mentioned, Control.held]
  refine live.proceed [] rfl (List.nil_subset _) ?_ rfl ?_ announced apart
  next =>
    intro job member
    simp only [ShellState.references, ShellState.goto, free, Option.toList_none,
      List.nil_append] at member ⊢
    simp only [List.append_assoc] at member ⊢
    exact List.mem_append_right _ member
  next =>
    have nodup := live.exclusive
    simp only [ShellState.exclusive, ShellState.goto, unheld, Option.toList_none,
      List.nil_append] at nodup ⊢
    exact (List.nodup_append.mp nodup).2.1

theorem childStep (live : Live state) {event : ChildEvent}
    (taken : Shell.childStep state event = some next) : Live next := by
  unfold Shell.childStep at taken
  split at taken
  all_goals
    split at taken <;> cases taken
    exact live.proceed [] rfl (List.nil_subset _) (List.Subset.refl _) rfl live.exclusive
      live.announced live.apart

theorem leaveHandle (live : Live state) {job : JobId} {rest : List JobId}
    (visiting : state.handler = .visiting (job :: rest)) :
    Live (Shell.leaveHandle state job rest) := by
  have here : job ∈ state.references := by
    simp [ShellState.references, visiting, Handler.handles]
  unfold Shell.leaveHandle
  dsimp only
  split
  next =>
    have moved := removeJobHandle_perm state.jobs (state.jobs job).pgid state.currentJob
    refine live.proceed (job :: examined state.jobs (state.jobs job).pgid state.currentJob) rfl
      ?_ ?_ rfl ?_ live.announced fun draining other listed => ?_
    next =>
      refine List.cons_subset.mpr ⟨here, fun other looked => ?_⟩
      have listed := examined_subset looked
      simp [ShellState.references, listed]
    next =>
      intro other member
      have old := moved.mem_iff (a := other)
      simp only [ShellState.references, ShellState.use, Handler.handles, visiting,
        List.mem_append, List.mem_cons] at member old ⊢
      tauto
    next =>
      refine (List.Perm.append_left _ ?_).nodup_iff.mpr live.exclusive
      exact perm_moved moved List.perm_append_comm
    next =>
      exact live.apart draining other ((removeJobHandle_sublist _ _ _).subset listed)
  next =>
    refine live.proceed [job] rfl (by simpa using here) ?_ rfl live.exclusive
      live.announced live.apart
    intro other member
    simp only [ShellState.references, ShellState.use, Handler.handles, visiting,
      List.mem_append, List.mem_cons] at member ⊢
    tauto

theorem crash (live : Live state) (used : List JobId) (looked : used ⊆ state.references) :
    Live (state.use used).crash := by
  refine live.proceed used rfl looked ?_ rfl ?_ (by simp [ShellState.crash, Control.announced])
    (by simp [ShellState.crash])
  next =>
    intro job member
    simp only [ShellState.references, ShellState.use, ShellState.crash, Handler.handles,
      Control.mentioned, Control.held, Option.toList_none, List.mem_append, List.not_mem_nil]
      at member ⊢
    tauto
  next =>
    have nodup := live.exclusive
    exact (List.nodup_append.mp nodup).2.1

theorem sweepChild (live : Live state) (pid : Nat) : Live (Shell.sweepChild state pid) := by
  have moved := removeJobHandle_perm state.jobs pid state.currentJob
  have looked : examined state.jobs pid state.currentJob ⊆ state.references := by
    intro job member
    have listed := examined_subset member
    simp [ShellState.references, listed]
  unfold Shell.sweepChild
  dsimp only
  split
  next removed added =>
    have kept : removed.Perm ((removeJobHandle state.jobs pid state.currentJob).1.toList ++
        state.pendingRemovedJobs) := by
      unfold addFirst at added
      split at added
      next job list here => cases added; rw [here]; rfl
      next here empty => cases added; rw [here, empty]; rfl
      next => simp at added
    refine live.proceed _ rfl looked ?_ rfl ?_ live.announced ?_
    next =>
      intro other member
      have old := moved.mem_iff (a := other)
      have new := kept.mem_iff (a := other)
      simp only [ShellState.references, ShellState.use, List.mem_append] at member old new ⊢
      tauto
    next =>
      refine (List.Perm.append_left _ ?_).nodup_iff.mpr live.exclusive
      exact perm_moved moved kept
    next =>
      intro draining other listed
      exact live.apart draining other ((removeJobHandle_sublist _ _ _).subset listed)
  next => exact live.crash _ looked

theorem children (live : Live state) (children : List Child) :
    Live { state with children } :=
  live.proceed [] rfl (List.nil_subset _) (List.Subset.refl _) rfl live.exclusive
    live.announced live.apart

theorem handlerStep (live : Live state) {event : HandlerEvent}
    (taken : Shell.handlerStep state event = some next) : Live next := by
  unfold Shell.handlerStep at taken
  split at taken
  next =>
    split at taken <;> cases taken
    refine live.proceed [] rfl (List.nil_subset _) ?_ rfl live.exclusive live.announced live.apart
    intro job member
    simp only [ShellState.references, Handler.handles, List.mem_append] at member ⊢
    tauto
  next pid =>
    split at taken
    next job rest visiting =>
      obtain ⟨outcome, _, rfl⟩ := Option.map_eq_some_iff.mp taken
      refine live.proceed [job] rfl ?_ (List.Subset.refl _) rfl live.exclusive live.announced
        live.apart
      simp [ShellState.references, visiting, Handler.handles]
    next => simp at taken
  next =>
    split at taken
    next visiting =>
      split at taken <;> cases taken
      exact live.leaveHandle visiting
    next => simp at taken
  next pid =>
    split at taken
    next =>
      obtain ⟨outcome, _, rfl⟩ := Option.map_eq_some_iff.mp taken
      exact (live.children outcome.2).sweepChild pid
    next => simp at taken
  next =>
    split at taken
    next visiting =>
      split at taken <;> cases taken
      refine live.proceed [] rfl (List.nil_subset _) ?_ rfl live.exclusive live.announced
        live.apart
      intro job member
      simp only [ShellState.references, Handler.handles, visiting, List.mem_append] at member ⊢
      tauto
    next => simp at taken

theorem startJob (live : Live state) (here : state.control = .command) (job : Job) :
    Live { state.setJob state.nextJob job with
      nextJob := state.nextJob + 1
      control := .starting state.nextJob true job.pipeline.length } := by
  have pending := live.announced (by rw [here]; rfl)
  have older :
      ∀ other ∈ state.currentJob ++ state.pendingRemovedJobs, other ∈ state.references := by
    intro other member
    simp only [ShellState.references, List.mem_append] at member ⊢
    tauto
  constructor
  next => exact live.safe
  next =>
    intro other member destroyed
    have known := live.past other destroyed
    simp only [ShellState.references, ShellState.setJob, Control.mentioned, Control.held,
      Option.toList_some, List.mem_append, List.mem_singleton] at member
    have alive := live.alive other
    simp only [ShellState.references, List.mem_append] at alive
    have fresh : other ≠ state.nextJob := Nat.ne_of_lt known
    exact alive (by tauto) destroyed
  next =>
    intro other member
    have known := live.known other
    simp only [ShellState.references, ShellState.setJob, Control.mentioned, Control.held,
      Option.toList_some, List.mem_append, List.mem_singleton] at member known ⊢
    by_cases same : other = state.nextJob
    next => exact same ▸ Nat.lt_succ_self _
    next => exact Nat.lt_succ_of_lt (known (by tauto))
  next => exact fun other destroyed => Nat.lt_succ_of_lt (live.past other destroyed)
  next =>
    have nodup := live.exclusive
    simp only [ShellState.exclusive, here, Control.held, Option.toList_none,
      List.nil_append] at nodup
    refine List.nodup_cons.mpr ⟨fun member => ?_, nodup⟩
    exact absurd (live.known _ (older _ member)) (Nat.lt_irrefl _)
  next => exact fun _ => pending
  next => simp

theorem takeHandle (live : Live state) (here : state.control = .command)
    (arguments : List (Option (List UInt8))) (argc : Nat) {holding : JobId → Control}
    (holds : ∀ job, holding job = .fetched job ∨ holding job = .moved job) :
    Live (Shell.takeHandle state arguments argc holding) := by
  have pending := live.announced (by rw [here]; rfl)
  unfold Shell.takeHandle
  split
  next job rest found =>
    obtain ⟨before, after, split, rfl⟩ := getJobHandle_handle found
    have held : (holding job).held = some job := by
      rcases holds job with same | same <;> rw [same] <;> rfl
    have mentioned : (holding job).mentioned = some job := by
      rcases holds job with same | same <;> rw [same] <;> rfl
    have busy : holding job ≠ .draining := by rcases holds job with same | same <;> simp [same]
    refine live.proceed state.currentJob rfl ?_ ?_ rfl ?_ (fun _ => pending)
      (fun draining => absurd draining busy)
    next =>
      intro other member
      simp [ShellState.references, member]
    next =>
      intro other member
      simp only [ShellState.references, ShellState.use, mentioned, split, Option.toList_some,
        List.mem_append, List.mem_cons, List.not_mem_nil] at member ⊢
      tauto
    next =>
      have nodup := live.exclusive
      simp only [ShellState.exclusive, here, Control.held, Option.toList_none, List.nil_append,
        split] at nodup
      simp only [ShellState.exclusive, ShellState.use, held, Option.toList_some,
        List.singleton_append]
      refine (List.Perm.append_right _ List.perm_middle).nodup_iff.mp nodup
  next => exact live.goto rfl (by simp [Control.announced]) (by simp)
  next => exact live.goto rfl (by simp [Control.announced]) (by simp)
  next => exact live.crash [] (List.nil_subset _)
  next => exact live.crash [] (List.nil_subset _)

theorem commandStep (live : Live state) (here : state.control = .command) {event : MainEvent}
    (taken : Shell.commandStep state event = some next) : Live next := by
  have pending := live.announced (by rw [here]; rfl)
  unfold Shell.commandStep at taken
  split at taken
  next =>
    split at taken <;> cases taken
    exact live.startJob here _
  next arguments argc =>
    cases taken
    exact live.takeHandle here arguments argc fun _ => Or.inl rfl
  next arguments argc =>
    cases taken
    exact live.takeHandle here arguments argc fun _ => Or.inr rfl
  next =>
    cases taken
    have printing : Live (state.goto (.printing false)) :=
      live.goto rfl (by simp [Control.announced]) (by simp)
    refine printing.proceed state.currentJob rfl ?_ (List.Subset.refl _) rfl printing.exclusive
      printing.announced printing.apart
    intro job member
    simp [ShellState.references, ShellState.goto, member]
  next =>
    cases taken
    exact live.goto rfl (by simp [Control.announced]) (by simp)
  next =>
    cases taken
    exact live.goto rfl (fun _ => pending) (by simp)
  next => simp at taken

theorem listJob (live : Live state) {job : JobId} (held : state.control.held = some job)
    (jobs : JobId → Job) : Live ({ Shell.listJob state job with jobs }.goto .terminal) := by
  have mentioned : state.control.mentioned = some job := by
    cases here : state.control <;> simp_all [Control.mentioned, Control.held]
  refine live.proceed [] rfl (List.nil_subset _) ?_ rfl ?_
    (by simp [ShellState.goto, Control.announced]) (by simp [ShellState.goto])
  next =>
    intro other member
    have free : Control.terminal.mentioned = none := rfl
    simp only [ShellState.references, ShellState.goto, Shell.listJob, mentioned, free,
      Option.toList_none, Option.toList_some, List.mem_append, List.mem_cons,
      List.not_mem_nil] at member ⊢
    tauto
  next =>
    have nodup := live.exclusive
    simp only [ShellState.exclusive, held, Option.toList_some] at nodup
    exact nodup

theorem hold (live : Live state) {control : Control} (held : control.held = state.control.held)
    (mentioned : control.mentioned = state.control.mentioned)
    (announced : state.control.announced = true) (busy : control ≠ .draining)
    (children : List Child) (jobs : JobId → Job) :
    Live { state with control, children, jobs } := by
  refine live.proceed [] rfl (List.nil_subset _) ?_ rfl ?_ (fun _ => live.announced announced)
    (fun draining => absurd draining busy)
  next => simp [ShellState.references, mentioned]
  next => simpa [ShellState.exclusive, held] using live.exclusive

theorem startStep (live : Live state) {job : JobId} {first : Bool} {remaining : Nat}
    (here : state.control = .starting job first remaining) {event : MainEvent}
    (taken : Shell.startStep state job first remaining event = some next) : Live next := by
  have held : state.control.held = some job := by rw [here]; rfl
  unfold Shell.startStep at taken
  split at taken
  next =>
    split at taken <;> cases taken
    exact live.hold (by rw [here]; rfl) (by rw [here]; rfl) (by rw [here]; rfl) (by simp) _ _
  next =>
    cases taken
    unfold launchJob
    split
    next =>
      exact live.hold (by rw [here]; rfl) (by rw [here]; rfl) (by rw [here]; rfl) (by simp) _ _
    next => exact live.listJob held state.jobs
  next =>
    cases taken
    exact live.goto rfl (by simp [Control.announced]) (by simp)
  next => simp at taken

theorem waitStep (live : Live state) {job : JobId} {wait : WaitState}
    (here : state.control = .waiting job wait) {event : MainEvent}
    (taken : Shell.waitStep state job wait event = some next) : Live next := by
  have held : state.control.held = some job := by rw [here]; rfl
  unfold Shell.waitStep at taken
  split at taken
  next =>
    obtain ⟨outcome, _, rfl⟩ := Option.map_eq_some_iff.mp taken
    unfold waitForFgJob
    dsimp only
    split
    next => exact (live.children outcome.2).listJob held _
    next =>
      exact live.hold (by rw [here]; rfl) (by rw [here]; rfl) (by rw [here]; rfl) (by simp) _ _
  next =>
    split at taken <;> cases taken
    exact live.goto rfl (by simp [Control.announced]) (by simp)
  next => simp at taken

theorem putBack (live : Live state) {job : JobId} (held : state.control.held = some job)
    {control : Control} (holding : control = .printing false ∨ control = .relisted job)
    (announced : state.control.announced = true) (jobs : JobId → Job) :
    Live { state.use [job] with
      jobs, control, currentJob := state.currentJob ++ [job] } := by
  have mentioned : state.control.mentioned = some job := by
    cases here : state.control <;> simp_all [Control.mentioned, Control.held]
  have released : control.held = none := by rcases holding with rfl | rfl <;> rfl
  have remembered : control.mentioned.toList ⊆ [job] := by
    rcases holding with rfl | rfl <;> simp [Control.mentioned, Control.held]
  refine live.proceed [job] rfl ?_ ?_ rfl ?_ (fun _ => live.announced announced) ?_
  next => simp [ShellState.references, mentioned]
  next =>
    intro other member
    have kept := @remembered other
    simp only [ShellState.references, ShellState.use, mentioned, Option.toList_some,
      List.mem_append, List.mem_singleton] at member kept ⊢
    tauto
  next =>
    have nodup := live.exclusive
    simp only [ShellState.exclusive, held, Option.toList_some] at nodup
    simp only [ShellState.exclusive, ShellState.use, released, Option.toList_none,
      List.nil_append, List.append_assoc, List.singleton_append]
    exact List.perm_middle.nodup_iff.mpr nodup
  next => rcases holding with rfl | rfl <;> simp

theorem fgStep (live : Live state) {job : JobId} (here : state.control = .fetched job)
    {event : MainEvent} (taken : Shell.fgStep state job event = some next) : Live next := by
  have held : state.control.held = some job := by rw [here]; rfl
  have announced : state.control.announced = true := by rw [here]; rfl
  unfold Shell.fgStep at taken
  split at taken
  next =>
    cases taken
    exact live.putBack held (Or.inl rfl) announced state.jobs
  next =>
    cases taken
    have same : Control.held (.waiting job .start) = state.control.held := by rw [here]; rfl
    have given := live.hold same (by rw [here]; rfl) announced (by simp) state.children
      (Function.update state.jobs job { state.jobs job with stopped := false, fg := true })
    refine given.proceed [job] rfl ?_ (List.Subset.refl _) rfl given.exclusive given.announced
      given.apart
    simp [ShellState.references, Control.mentioned, Control.held]
  next => simp at taken

theorem bgStep (live : Live state) {job : JobId} (here : state.control = .moved job)
    {event : MainEvent} (taken : Shell.bgStep state job event = some next) : Live next := by
  unfold Shell.bgStep at taken
  split at taken <;> cases taken
  exact live.putBack (by rw [here]; rfl) (Or.inr rfl) (by rw [here]; rfl) _

theorem announceStep (live : Live state) {job : JobId} (here : state.control = .relisted job)
    {event : MainEvent} (taken : Shell.announceStep state job event = some next) : Live next := by
  unfold Shell.announceStep at taken
  split at taken <;> cases taken
  refine live.proceed [] rfl (List.nil_subset _) ?_ rfl ?_ (by simp [Control.announced]) (by simp)
  next =>
    intro other member
    have free : (Control.printing false).mentioned = none := rfl
    have mentioned : (Control.relisted job).mentioned = some job := rfl
    simp only [ShellState.references, here, free, mentioned, Option.toList_none,
      Option.toList_some, List.mem_append, List.mem_singleton, List.not_mem_nil] at member ⊢
    tauto
  next => simpa [ShellState.exclusive, here, Control.held] using live.exclusive

theorem printStep (live : Live state) {ending : Bool} (here : state.control = .printing ending)
    {event : MainEvent} (taken : Shell.printStep state ending event = some next) : Live next := by
  unfold Shell.printStep at taken
  split at taken
  next =>
    split at taken
    next job rest pending =>
      cases taken
      refine live.proceed [] rfl (List.nil_subset _) ?_ rfl ?_ (by simp [Control.announced])
        (by simp)
      next =>
        intro other member
        have free : (Control.printing ending).mentioned = none := rfl
        have mentioned : (Control.showing ending job).mentioned = some job := rfl
        simp only [ShellState.references, here, pending, free, mentioned, Option.toList_none,
          Option.toList_some, List.mem_append, List.mem_cons, List.not_mem_nil] at member ⊢
        tauto
      next => simpa [ShellState.exclusive, here, Control.held] using live.exclusive
    next pending =>
      cases taken
      exact live.goto rfl (fun _ => pending) (by simp)
  next => simp at taken

theorem showStep (live : Live state) {ending : Bool} {job : JobId}
    (here : state.control = .showing ending job) {event : MainEvent}
    (taken : Shell.showStep state ending job event = some next) : Live next := by
  have mentioned : state.control.mentioned = some job := by rw [here]; rfl
  unfold Shell.showStep at taken
  split at taken <;> cases taken
  refine live.proceed [job] rfl ?_ ?_ rfl ?_ (by simp [Control.announced]) (by simp)
  next => simp [ShellState.references, mentioned]
  next =>
    intro other member
    have free : (Control.printing ending).mentioned = none := rfl
    simp only [ShellState.references, ShellState.use, mentioned, free, Option.toList_none,
      Option.toList_some, List.mem_append, List.mem_singleton, List.not_mem_nil] at member ⊢
    tauto
  next => simpa [ShellState.exclusive, ShellState.use, here, Control.held] using live.exclusive

theorem removeStep (live : Live state) (idle : state.handler = .idle) {ending : Bool}
    (here : state.control = .removing ending) {event : MainEvent}
    (taken : Shell.removeStep state ending event = some next) : Live next := by
  have pending := live.announced (by rw [here]; rfl)
  unfold Shell.removeStep at taken
  split at taken
  next =>
    split at taken
    next job rest removed =>
      cases taken
      have nodup := live.exclusive
      simp only [ShellState.exclusive, here, Control.held, Option.toList_none, List.nil_append,
        removed] at nodup
      obtain ⟨absent, others⟩ := List.nodup_cons.mp (List.perm_middle.nodup_iff.mp nodup)
      refine live.destroy rfl ?_ ?_ ?_ rfl ?_ (fun _ => pending) ?_
      next => simp [ShellState.references, removed]
      next =>
        intro other member
        simp only [ShellState.references, removed, List.mem_append, List.mem_cons] at member ⊢
        tauto
      next =>
        simpa [ShellState.references, here, idle, pending, Control.mentioned, Control.held,
          Handler.handles] using absent
      next => simpa [ShellState.exclusive, here, Control.held] using others
      next => simp [here]
    next =>
      cases taken
      exact live.goto (by cases ending <;> rfl) (fun _ => pending) (by cases ending <;> simp)
  next => simp at taken

theorem drainStep (live : Live state) (idle : state.handler = .idle)
    (here : state.control = .draining) {event : MainEvent}
    (taken : Shell.drainStep state event = some next) : Live next := by
  unfold Shell.drainStep at taken
  split at taken
  next =>
    split at taken
    next job rest listed =>
      cases taken
      have nodup := live.exclusive
      have apart := live.apart here
      simp only [ShellState.exclusive, here, Control.held, Option.toList_none, List.nil_append,
        listed, List.cons_append] at nodup
      rw [listed] at apart
      obtain ⟨absent, others⟩ := List.nodup_cons.mp nodup
      refine live.destroy rfl ?_ ?_ ?_ rfl ?_ (by simp [here, Control.announced]) ?_
      next => simp [ShellState.references, listed]
      next =>
        intro other member
        simp only [ShellState.references, listed, List.mem_append, List.mem_cons] at member ⊢
        tauto
      next =>
        have announced := apart job List.mem_cons_self
        simp only [List.mem_append, not_or] at absent
        simp [ShellState.references, here, idle, Control.mentioned, Control.held,
          Handler.handles, absent.1, absent.2, announced]
      next => simpa [ShellState.exclusive, here, Control.held] using others
      next => exact fun _ other member => apart other (List.mem_cons_of_mem _ member)
    next =>
      cases taken
      exact live.goto rfl (by simp [Control.announced]) (by simp)
  next => simp at taken

theorem reapStep (live : Live state) {event : MainEvent}
    (taken : Shell.reapStep state event = some next) : Live next := by
  unfold Shell.reapStep at taken
  split at taken
  next =>
    obtain ⟨outcome, _, rfl⟩ := Option.map_eq_some_iff.mp taken
    exact live.children outcome.2
  next =>
    split at taken <;> cases taken
    exact live.goto rfl (by simp [Control.announced]) (by simp)
  next => simp at taken

theorem mainStep (live : Live state) {event : MainEvent}
    (apart : ReclaimedApart state (.main event))
    (taken : Shell.mainStep state event = some next) : Live next := by
  unfold Shell.mainStep at taken
  split at taken
  next idle =>
    unfold controlStep at taken
    split at taken
    next here => exact live.commandStep here taken
    next here => exact live.startStep here taken
    next here => exact live.waitStep here taken
    next =>
      unfold terminalStep at taken
      split at taken <;> cases taken
      · exact live.goto rfl (by simp [Control.announced]) (by simp)
      · exact live.goto rfl (by simp [Control.announced]) (by simp)
    next here => exact live.fgStep here taken
    next here => exact live.bgStep here taken
    next here => exact live.announceStep here taken
    next here => exact live.printStep here taken
    next here => exact live.showStep here taken
    next here => exact live.removeStep idle here taken
    next jumped here =>
      split at taken <;> cases taken
      next cleaned =>
        subst cleaned
        refine live.goto rfl (by simp [Control.announced]) fun _ => ?_
        cases jumped with
        | true => exact apart rfl here
        | false =>
          have pending := live.announced (by rw [here]; rfl)
          simp [pending]
    next here => exact live.drainStep idle here taken
    next => exact live.reapStep taken
    next => simp at taken
    next => simp at taken
  next => simp at taken

theorem shellStep (live : Live state) {event : ShellEvent} (apart : ReclaimedApart state event)
    (taken : Shell.shellStep state event = some next) : Live next := by
  cases event with
  | child event => exact live.childStep taken
  | handler event => exact live.handlerStep taken
  | main event => exact live.mainStep apart taken

theorem initial : Live initialShell := by
  constructor <;> simp [initialShell, LifetimeSafe, ShellState.references, ShellState.exclusive,
    Control.mentioned, Control.held, Control.announced, Handler.handles]

end Live

theorem liveness_holds {state : ShellState}
    (reached : Reaches shellStep ReclaimedApart initialShell state) :
    LifetimeSafe state.accesses :=
  (reached.invariant Live Live.initial fun _ _ _ live apart taken =>
    live.shellStep apart taken).safe

def launched : List ShellEvent :=
  [.main .unqueued, .main .removed, .main (.startJob (backgroundJob 1)), .main (.forked 100),
    .main .started]

def cleanedUp : List ShellEvent :=
  [.main .cleaned, .main .drained, .main .drained, .child (.exited 100),
    .main (.reaped (some 100)), .main (.reaped none), .main .unqueued, .main .removed]

def orderlyExit : List ShellEvent :=
  launched ++ [.main .regained, .main .unqueued, .main .printed, .main .unqueued, .main .removed,
    .main .left] ++ cleanedUp

theorem liveness_holds_orderlyExit :
    (arrival shellStep ReclaimedApart initialShell orderlyExit).accesses =
        [.destroyed 0, .used 0, .used 0] ∧
      LifetimeSafe (arrival shellStep ReclaimedApart initialShell orderlyExit).accesses :=
  ⟨by decide +kernel, liveness_holds (reaches_arrival orderlyExit)⟩

def lostTerminal : List ShellEvent :=
  launched ++ [.main .lost] ++ cleanedUp.take 7 ++ [.main .printed]

theorem lostTerminal_runs : ((run shellStep initialShell lostTerminal).map fun state =>
    decide (LifetimeSafe state.accesses)) = some false := by decide +kernel

theorem liveness_fails :
    ¬ ∀ state, Reachable shellStep initialShell state → LifetimeSafe state.accesses := by
  intro claim
  obtain ⟨state, ran, broken⟩ := Option.map_eq_some_iff.mp lostTerminal_runs
  exact of_decide_eq_false broken (claim state (reachable_of_run lostTerminal ran))

end Akiso.Shell
