import Akiso.Shell.JobControl

set_option autoImplicit false

namespace Akiso.Shell

open Transition

/-- WSTOPSIG(status) is whatever has stopped the process. -/
inductive Signal where
  | hup
  | term
  | cont
  | stop
  deriving DecidableEq, Repr

def signals (state : ShellState) : ShellEvent → List (Nat × Signal)
  | .handler (.polled (some pid)) =>
    match state.handler with
    | .visiting (job :: _) =>
      let group := (state.jobs job).pgid
      match waitpid (inGroup group) true pid state.children with
      | some (.ended, _) => [(group, .cont)]
      | some (.stopped, _) => [(group, .stop)]
      | none => []
    | _ => []
  | .main event =>
    match state.control, event with
    | .starting job _ _, .startFailed =>
      let group := (state.jobs job).pgid
      if 0 < group then [(group, .term), (group, .cont)] else []
    | .waiting job wait, .waited (some pid) =>
      let group := (state.jobs job).pgid
      match waitpid (inGroup group) true pid state.children with
      | some (.ended, _) => if wait.stopped then [(group, .term), (group, .cont)] else []
      | some (.stopped, _) => if wait.fallingApart then [(group, .term), (group, .cont)] else []
      | none => []
    | .fetched job, .handedOver => [((state.jobs job).pgid, .cont)]
    | .moved job, .resumed => [((state.jobs job).pgid, .cont)]
    | .draining, .drained =>
      match state.currentJob with
      | job :: _ => [((state.jobs job).pgid, .hup), ((state.jobs job).pgid, .cont)]
      | [] => []
    | _, _ => []
  | _ => []

def waitedGroups (state : ShellState) : ShellEvent → List Nat
  | .handler (.polled _) =>
    match state.handler with
    | .visiting (job :: _) => [(state.jobs job).pgid]
    | _ => []
  | .main (.waited _) =>
    match state.control with
    | .waiting job _ => [(state.jobs job).pgid]
    | _ => []
  | _ => []

-- The job in the shell's hands, but not before its first process has been forked.
def Control.named : Control → Option JobId
  | .starting job first _ => if first then none else some job
  | .waiting job _ => some job
  | .fetched job => some job
  | .moved job => some job
  | _ => none

def Handler.visited : Handler → List JobId
  | .idle => []
  | .visiting handles => handles

def ShellState.addressed (state : ShellState) : List JobId :=
  state.control.named.toList ++ state.handler.visited ++ state.currentJob

structure Addressed (state : ShellState) : Prop where
  groups : ∀ job ∈ state.addressed, job < state.nextJob ∧ 1 < (state.jobs job).pgid
  starting : ∀ job remaining, state.control = .starting job true remaining →
    job < state.nextJob ∧ 0 < remaining ∧ (state.jobs job).pgid = 0

variable {state next : ShellState} {job : JobId}

theorem mem_addressed : job ∈ state.addressed ↔ state.control.named = some job ∨
    job ∈ state.handler.visited ∨ job ∈ state.currentJob := by
  simp [ShellState.addressed, Option.mem_toList, eq_comm]

theorem Addressed.keep (addressed : Addressed state) (nextJob : next.nextJob = state.nextJob)
    (fewer : next.addressed ⊆ state.addressed)
    (pgids : ∀ job, (next.jobs job).pgid = (state.jobs job).pgid)
    (control : ∀ job remaining, next.control = .starting job true remaining →
      state.control = .starting job true remaining) : Addressed next where
  groups job member := by
    rw [nextJob, pgids]
    exact addressed.groups job (fewer member)
  starting job remaining same := by
    rw [nextJob, pgids]
    exact addressed.starting job remaining (control job remaining same)

theorem removeJobHandle_fewer (jobs : JobId → Job) (pid : Nat) (list : List JobId) :
    (removeJobHandle jobs pid list).2 ⊆ list := by
  cases found : (removeJobHandle jobs pid list).1 with
  | none => rw [removeJobHandle_none found]; exact fun _ member => member
  | some job =>
    obtain ⟨before, after, split, kept, -⟩ := removeJobHandle_some found
    rw [kept, split]
    intro other member
    rcases List.mem_append.mp member with early | late
    · exact List.mem_append_left _ early
    · exact List.mem_append_right _ (List.mem_cons_of_mem _ late)

theorem absorb_pgid (job : Job) (report : Report) : (job.absorb report).pgid = job.pgid := by
  cases report <;> rfl

theorem setJob_pgid (state : ShellState) (id : JobId) {changed : Job}
    (same : changed.pgid = (state.jobs id).pgid) (job : JobId) :
    ((state.setJob id changed).jobs job).pgid = (state.jobs job).pgid := by
  by_cases here : job = id
  · subst here
    simp [ShellState.setJob, same]
  · simp [ShellState.setJob, here]

theorem Addressed.handlerStep (addressed : Addressed state) {event : HandlerEvent}
    (taken : handlerStep state event = some next) : Addressed next := by
  unfold Shell.handlerStep at taken
  split at taken
  next =>
    split at taken <;> cases taken
    refine addressed.keep rfl (fun job member => ?_) (fun _ => rfl) fun _ _ same => same
    rw [mem_addressed] at member ⊢
    exact member.imp_right fun rest => .inr (rest.elim id id)
  next =>
    split at taken
    next job rest visiting =>
      obtain ⟨outcome, _, rfl⟩ := Option.map_eq_some_iff.mp taken
      exact addressed.keep rfl (List.Subset.refl _)
        (setJob_pgid _ job (absorb_pgid _ outcome.1)) fun _ _ same => same
    next => simp at taken
  next =>
    split at taken
    next job rest visiting =>
      split at taken <;> cases taken
      have fewer : (leaveHandle state job rest).currentJob ⊆ state.currentJob := by
        unfold leaveHandle
        dsimp only
        split
        · exact removeJobHandle_fewer state.jobs _ state.currentJob
        · exact List.Subset.refl _
      have rest_of : (leaveHandle state job rest).control = state.control ∧
          (leaveHandle state job rest).nextJob = state.nextJob ∧
          (leaveHandle state job rest).jobs = state.jobs ∧
          (leaveHandle state job rest).handler = .visiting rest := by
        unfold leaveHandle
        dsimp only
        split <;> exact ⟨rfl, rfl, rfl, rfl⟩
      obtain ⟨control, nextJob, jobs, handler⟩ := rest_of
      refine addressed.keep nextJob (fun other member => ?_) (by simp [jobs]) (by simp [control])
      rw [mem_addressed, control, handler] at member
      rw [mem_addressed, visiting]
      exact member.imp_right fun listed =>
        listed.imp (fun later => List.mem_cons_of_mem _ later) fun later => fewer later
    next => simp at taken
  next pid =>
    split at taken
    next =>
      obtain ⟨outcome, _, rfl⟩ := Option.map_eq_some_iff.mp taken
      unfold sweepChild
      dsimp only
      split
      next =>
        refine addressed.keep rfl (fun other member => ?_) (fun _ => rfl) fun _ _ same => same
        rw [mem_addressed] at member ⊢
        exact member.imp_right fun listed => listed.imp_right fun later =>
          removeJobHandle_fewer _ _ _ later
      next =>
        refine addressed.keep rfl (fun other member => ?_) (fun _ => rfl) nofun
        rw [mem_addressed] at member ⊢
        refine .inr (.inr ?_)
        simpa [ShellState.crash, Control.named, Handler.visited, ShellState.use] using member
    next => simp at taken
  next =>
    split at taken
    next visiting =>
      split at taken <;> cases taken
      refine addressed.keep rfl (fun other member => ?_) (fun _ => rfl) fun _ _ same => same
      rw [mem_addressed] at member ⊢
      simpa [visiting, Handler.visited] using member
    next => simp at taken

theorem Addressed.childStep (addressed : Addressed state) {event : ChildEvent}
    (taken : childStep state event = some next) : Addressed next := by
  cases event <;>
  · simp only [Shell.childStep] at taken
    split at taken <;> cases taken
    exact addressed.keep rfl (List.Subset.refl _) (fun _ => rfl) fun _ _ same => same

theorem Addressed.settle (addressed : Addressed state) (nextJob : next.nextJob = state.nextJob)
    (pgids : ∀ job, (next.jobs job).pgid = (state.jobs job).pgid)
    (listed : next.currentJob ⊆ state.addressed) (handler : next.handler = .idle)
    (held : ∀ job, next.control.held = some job → job ∈ state.addressed)
    (started : ∀ job remaining, next.control ≠ .starting job true remaining) :
    Addressed next := by
  refine addressed.keep nextJob (fun job member => ?_) pgids
    fun job remaining same => absurd same (started job remaining)
  rcases mem_addressed.mp member with named | visited | current
  · apply held
    revert named
    cases next.control <;> simp [Control.named, Control.held]
  · simp [handler, Handler.visited] at visited
  · exact listed current

theorem subset_addressed (state : ShellState) : state.currentJob ⊆ state.addressed :=
  fun _ listed => mem_addressed.mpr (.inr (.inr listed))

theorem Addressed.goto (addressed : Addressed state) (idle : state.handler = .idle)
    {control : Control} (free : control.held = none) : Addressed (state.goto control) := by
  refine addressed.settle rfl (fun _ => rfl) (subset_addressed state) idle ?_
    fun job remaining same => ?_
  · simp [ShellState.goto, free]
  · dsimp only [ShellState.goto] at same
    simp [same, Control.held] at free

theorem Addressed.startJob (addressed : Addressed state) (idle : state.handler = .idle)
    {job : Job} (startable : Startable job) :
    Addressed { state.setJob state.nextJob job with
      nextJob := state.nextJob + 1
      control := .starting state.nextJob true job.pipeline.length } where
  groups other member := by
    simp only [mem_addressed, Control.named, if_true, reduceCtorEq, ShellState.setJob, idle,
      Handler.visited, List.not_mem_nil, false_or] at member ⊢
    obtain ⟨known, group⟩ := addressed.groups other (subset_addressed state member)
    rw [Function.update_of_ne (Nat.ne_of_lt known)]
    exact ⟨Nat.lt_succ_of_lt known, group⟩
  starting other remaining same := by
    obtain ⟨fresh, nonempty, -, -⟩ := startable
    cases same
    simp only [ShellState.setJob, Function.update_self]
    exact ⟨Nat.lt_succ_self _, List.length_pos_iff.mpr nonempty, fresh⟩

theorem Addressed.forkMember (addressed : Addressed state) (idle : state.handler = .idle)
    {first : Bool} {remaining pid : Nat}
    (here : state.control = .starting job first (remaining + 1))
    (fresh : freshPid pid state.children) :
    Addressed (forkMember state job first remaining pid) where
  groups other member := by
    have leading : job < state.nextJob ∧ 1 < if first then pid else (state.jobs job).pgid := by
      cases first with
      | true => exact ⟨(addressed.starting job _ here).1, fresh.1⟩
      | false =>
        have named : state.control.named = some job := by rw [here]; rfl
        exact addressed.groups job (mem_addressed.mpr (.inl named))
    simp only [mem_addressed, Shell.forkMember, ShellState.setJob, Control.named, idle,
      Handler.visited, List.not_mem_nil, false_or] at member ⊢
    by_cases same : other = job
    · subst same
      simpa using leading
    · rw [Function.update_of_ne same]
      refine addressed.groups other (subset_addressed state (member.resolve_left ?_))
      simp [Ne.symm same]
  starting other remaining same := by simp [Shell.forkMember] at same

theorem Addressed.commandStep (addressed : Addressed state) (idle : state.handler = .idle)
    {event : MainEvent} (taken : commandStep state event = some next) : Addressed next := by
  have taking : ∀ arguments argc holding, (holding = .fetched ∨ holding = .moved) →
      Addressed (takeHandle state arguments argc holding) := by
    intro arguments argc holding held
    unfold takeHandle
    split
    next job rest found =>
      obtain ⟨before, after, split, rfl⟩ := getJobHandle_handle found
      refine addressed.settle rfl (fun _ => rfl) (fun other member => ?_) idle
        (fun other same => ?_) fun _ _ => ?_
      next =>
        refine subset_addressed state (split ▸ ?_)
        simp only [List.mem_append, List.mem_cons] at member ⊢
        tauto
      next =>
        have same : other = job := by
          rcases held with rfl | rfl <;> simpa [Control.held, eq_comm] using same
        exact subset_addressed state (by simp [split, same])
      next => rcases held with rfl | rfl <;> simp
    next => exact addressed.goto idle rfl
    next => exact addressed.goto idle rfl
    next =>
      exact addressed.settle rfl (fun _ => rfl) (subset_addressed state) rfl
        (by simp [ShellState.crash, Control.held]) (by simp [ShellState.crash])
    next =>
      exact addressed.settle rfl (fun _ => rfl) (subset_addressed state) rfl
        (by simp [ShellState.crash, Control.held]) (by simp [ShellState.crash])
  unfold Shell.commandStep at taken
  split at taken
  next =>
    split at taken <;> cases taken
    next startable => exact addressed.startJob idle startable
  next arguments argc =>
    cases taken
    exact taking arguments argc _ (.inl rfl)
  next arguments argc =>
    cases taken
    exact taking arguments argc _ (.inr rfl)
  next =>
    cases taken
    exact addressed.settle rfl (fun _ => rfl) (subset_addressed state) idle
      (by simp [ShellState.goto, Control.held]) (by simp [ShellState.goto])
  next =>
    cases taken
    exact addressed.goto idle rfl
  next =>
    cases taken
    exact addressed.goto idle rfl
  next => simp at taken

theorem Addressed.startStep (addressed : Addressed state) (idle : state.handler = .idle)
    {first : Bool} {remaining : Nat} (here : state.control = .starting job first remaining)
    {event : MainEvent} (taken : startStep state job first remaining event = some next) :
    Addressed next := by
  unfold Shell.startStep at taken
  split at taken
  next =>
    split at taken <;> cases taken
    next fresh => exact addressed.forkMember idle here fresh
  next =>
    cases taken
    have named : job ∈ state.addressed := by
      refine mem_addressed.mpr (.inl ?_)
      cases first with
      | true => exact absurd (addressed.starting job 0 here).2.1 (Nat.lt_irrefl _)
      | false => simp [here, Control.named]
    unfold launchJob
    split
    next =>
      exact addressed.settle rfl (fun _ => rfl) (subset_addressed state) idle
        (by simp [ShellState.goto, Control.held, named]) (by simp [ShellState.goto])
    next =>
      exact addressed.settle rfl (fun _ => rfl)
        (List.cons_subset.mpr ⟨named, subset_addressed state⟩) idle
        (by simp [ShellState.goto, Control.held]) (by simp [ShellState.goto])
  next =>
    cases taken
    exact addressed.goto idle rfl
  next => simp at taken

theorem Addressed.waitStep (addressed : Addressed state) (idle : state.handler = .idle)
    {wait : WaitState} (here : state.control = .waiting job wait) {event : MainEvent}
    (taken : waitStep state job wait event = some next) : Addressed next := by
  have named : job ∈ state.addressed := mem_addressed.mpr (.inl (by simp [here, Control.named]))
  unfold Shell.waitStep at taken
  split at taken
  next =>
    obtain ⟨outcome, _, rfl⟩ := Option.map_eq_some_iff.mp taken
    unfold waitForFgJob
    dsimp only
    split
    next =>
      exact addressed.settle rfl (setJob_pgid (listJob _ job) job rfl)
        (List.cons_subset.mpr ⟨named, subset_addressed state⟩) idle
        (by simp [ShellState.goto, Control.held]) (by simp [ShellState.goto])
    next =>
      exact addressed.settle rfl (fun _ => rfl) (subset_addressed state) idle
        (by simp [ShellState.goto, Control.held, named]) (by simp [ShellState.goto])
  next =>
    split at taken <;> cases taken
    exact addressed.goto idle rfl
  next => simp at taken

theorem Addressed.heldStep (addressed : Addressed state) (idle : state.handler = .idle)
    (named : job ∈ state.addressed) {event : MainEvent}
    (taken : fgStep state job event = some next ∨ bgStep state job event = some next) :
    Addressed next := by
  have appended : state.currentJob ++ [job] ⊆ state.addressed :=
    List.append_subset.mpr ⟨subset_addressed state, by simpa using named⟩
  rcases taken with taken | taken
  · unfold fgStep at taken
    split at taken <;> cases taken
    · exact addressed.settle rfl (fun _ => rfl) appended idle (by simp [Control.held]) (by simp)
    · exact addressed.settle rfl (setJob_pgid _ job rfl) (subset_addressed state) idle
        (by simp [Control.held, named]) (by simp)
  · unfold bgStep at taken
    split at taken <;> cases taken
    exact addressed.settle rfl (setJob_pgid _ job rfl) appended idle (by simp [Control.held])
      (by simp)

theorem Addressed.release (addressed : Addressed state) (idle : state.handler = .idle)
    (nextJob : next.nextJob = state.nextJob) (jobs : next.jobs = state.jobs)
    (fewer : next.currentJob ⊆ state.currentJob) (handler : next.handler = state.handler)
    (free : next.control.held = none) : Addressed next := by
  refine addressed.settle nextJob (by simp [jobs])
    (List.Subset.trans fewer (subset_addressed state)) (handler.trans idle) (by simp [free])
    fun _ _ same => ?_
  simp [same, Control.held] at free

theorem Addressed.mainStep (addressed : Addressed state) {event : MainEvent}
    (taken : mainStep state event = some next) : Addressed next := by
  have named : ∀ {job}, state.control.named = some job → job ∈ state.addressed :=
    fun same => mem_addressed.mpr (.inl same)
  unfold Shell.mainStep at taken
  split at taken
  next idle =>
    unfold controlStep at taken
    split at taken
    next => exact addressed.commandStep idle taken
    next here => exact addressed.startStep idle here taken
    next here => exact addressed.waitStep idle here taken
    next =>
      unfold terminalStep at taken
      split at taken <;> cases taken
      · exact addressed.goto idle rfl
      · exact addressed.goto idle rfl
    next here => exact addressed.heldStep idle (named (by rw [here]; rfl)) (.inl taken)
    next here => exact addressed.heldStep idle (named (by rw [here]; rfl)) (.inr taken)
    next =>
      unfold announceStep at taken
      split at taken <;> cases taken
      exact addressed.release idle rfl rfl (List.Subset.refl _) rfl rfl
    next =>
      unfold printStep at taken
      split at taken
      next =>
        split at taken <;> cases taken
        · exact addressed.release idle rfl rfl (List.Subset.refl _) rfl rfl
        · exact addressed.goto idle rfl
      next => simp at taken
    next =>
      unfold showStep at taken
      split at taken <;> cases taken
      exact addressed.release idle rfl rfl (List.Subset.refl _) rfl rfl
    next ending here =>
      unfold removeStep at taken
      split at taken
      next =>
        split at taken <;> cases taken
        · exact addressed.release idle rfl rfl (List.Subset.refl _) rfl (by simp [here,
            Control.held])
        · exact addressed.goto idle (by cases ending <;> rfl)
      next => simp at taken
    next =>
      split at taken <;> cases taken
      exact addressed.goto idle rfl
    next here =>
      unfold drainStep at taken
      split at taken
      next =>
        split at taken <;> cases taken
        next job rest split =>
          exact addressed.release idle rfl rfl (split ▸ List.subset_cons_self job rest) rfl
            (by simp [here, Control.held])
        next => exact addressed.goto idle rfl
      next => simp at taken
    next here =>
      unfold reapStep at taken
      split at taken
      next =>
        obtain ⟨outcome, _, rfl⟩ := Option.map_eq_some_iff.mp taken
        exact addressed.release idle rfl rfl (List.Subset.refl _) rfl (by simp [here,
          Control.held])
      next =>
        split at taken <;> cases taken
        exact addressed.goto idle rfl
      next => simp at taken
    next => simp at taken
    next => simp at taken
  next => simp at taken

theorem Addressed.shellStep (addressed : Addressed state) {event : ShellEvent}
    (taken : shellStep state event = some next) : Addressed next := by
  cases event with
  | child event => exact addressed.childStep taken
  | handler event => exact addressed.handlerStep taken
  | main event => exact addressed.mainStep taken

theorem Addressed.initial : Addressed initialShell := by
  constructor <;> simp [initialShell, ShellState.addressed, Control.named, Handler.visited]

theorem Addressed.reached (run : Reachable Shell.shellStep initialShell state) :
    Addressed state :=
  run.invariant Addressed initial fun _ _ _ addressed _ taken => addressed.shellStep taken

theorem Addressed.signals (addressed : Addressed state) (event : ShellEvent) :
    ∀ call ∈ signals state event, ∃ job ∈ state.addressed,
      (state.jobs job).pgid = call.1 ∧ 1 < call.1 := by
  have aimed : ∀ job ∈ state.addressed, ∀ call : Nat × Signal, call.1 = (state.jobs job).pgid →
      ∃ job ∈ state.addressed, (state.jobs job).pgid = call.1 ∧ 1 < call.1 :=
    fun job member call same => ⟨job, member, same.symm, same ▸ (addressed.groups job member).2⟩
  have named : ∀ {job}, state.control.named = some job → job ∈ state.addressed :=
    fun same => mem_addressed.mpr (.inl same)
  intro call sent
  unfold Shell.signals at sent
  split at sent
  next pid =>
    split at sent
    next job rest visiting =>
      have visited : job ∈ state.addressed :=
        mem_addressed.mpr (.inr (.inl (by simp [visiting, Handler.visited])))
      dsimp only at sent
      split at sent <;> simp only [List.mem_singleton, List.not_mem_nil] at sent
      · exact aimed job visited call (by rw [sent])
      · exact aimed job visited call (by rw [sent])
    next => simp at sent
  next event =>
    split at sent
    next job first remaining here =>
      dsimp only at sent
      split at sent
      next positive =>
        cases first with
        | true =>
          have unforked := (addressed.starting job remaining here).2.2
          omega
        | false =>
          exact aimed job (named (by rw [here]; rfl)) call (by
            rcases List.mem_cons.mp sent with rfl | sent
            · rfl
            · rw [List.mem_singleton.mp sent])
      next => simp at sent
    next job wait pid here =>
      have group : call.1 = (state.jobs job).pgid := by
        dsimp only at sent
        split at sent
        all_goals (try split at sent)
        all_goals simp only [List.mem_cons, List.not_mem_nil, or_false] at sent
        all_goals rcases sent with rfl | rfl <;> rfl
      exact aimed job (named (by rw [here]; rfl)) call group
    next job here =>
      exact aimed job (named (by rw [here]; rfl)) call (by rw [List.mem_singleton.mp sent])
    next job here =>
      exact aimed job (named (by rw [here]; rfl)) call (by rw [List.mem_singleton.mp sent])
    next =>
      split at sent
      next job rest listed =>
        refine aimed job (subset_addressed state (by simp [listed])) call ?_
        simp only [List.mem_cons, List.not_mem_nil, or_false] at sent
        rcases sent with rfl | rfl <;> rfl
      next => simp at sent
    next => simp at sent
  next => simp at sent

theorem Addressed.waitedGroups (addressed : Addressed state) (event : ShellEvent) :
    ∀ group ∈ waitedGroups state event, 1 < group := by
  intro group waited
  unfold Shell.waitedGroups at waited
  split at waited
  next =>
    split at waited
    next job rest visiting =>
      rw [List.mem_singleton.mp waited]
      refine (addressed.groups job (mem_addressed.mpr (.inr (.inl ?_)))).2
      simp [visiting, Handler.visited]
    next => simp at waited
  next =>
    split at waited
    next job wait here =>
      rw [List.mem_singleton.mp waited]
      exact (addressed.groups job (mem_addressed.mpr (.inl (by rw [here]; rfl)))).2
    next => simp at waited
  next => simp at waited

/-- A signal goes to the process group of a job that is listed, visited or in the shell's hands,
never to the shell's own group or to every process, and so does the search for children. -/
theorem signals_aimed (event : ShellEvent) (run : Reachable shellStep initialShell state) :
    (∀ call ∈ signals state event, ∃ job ∈ state.addressed,
      (state.jobs job).pgid = call.1 ∧ 1 < call.1) ∧
    ∀ group ∈ waitedGroups state event, 1 < group :=
  ⟨(Addressed.reached run).signals event, (Addressed.reached run).waitedGroups event⟩

def leftBehind : List ShellEvent :=
  [.main .unqueued, .main .removed, .main (.startJob (backgroundJob 1)), .main (.forked 100),
    .main .started, .main .regained, .main .unqueued, .main .printed, .main .unqueued,
    .main .removed, .main .left, .main .cleaned]

theorem signals_aimed_leftBehind :
    let state := arrival shellStep (fun _ _ => True) initialShell leftBehind
    signals state (.main .drained) = [(100, .hup), (100, .cont)] ∧
      (∀ call ∈ signals state (.main .drained), ∃ job ∈ state.addressed,
        (state.jobs job).pgid = call.1 ∧ 1 < call.1) ∧
      ∀ group ∈ waitedGroups state (.main .drained), 1 < group :=
  ⟨by decide +kernel, signals_aimed (.main .drained) (reaches_arrival leftBehind)⟩

end Akiso.Shell
