import Akiso.Shell.Signals

set_option autoImplicit false

namespace Akiso.Shell

open Transition

def hangUp (jobs : JobId → Job) (job : JobId) : List (Nat × Signal) :=
  [((jobs job).pgid, .hup), ((jobs job).pgid, .cont)]

def destruction (job : JobId) : List Access :=
  [.destroyed job, .used job]

def signalStep (session : ShellState × List (Nat × Signal)) (event : ShellEvent) :
    Option (ShellState × List (Nat × Signal)) :=
  (shellStep session.1 event).map fun next => (next, session.2 ++ signals session.1 event)

def cleanupStage : Control → Nat
  | .draining => 0
  | .reaping => 1
  | .printing true => 2
  | .showing true _ => 2
  | .removing true => 3
  | .finished => 4
  | _ => 5

def Control.unprinted : Control → List JobId
  | .showing _ job => [job]
  | _ => []

/-- How far cleanup has come: the jobs that it has hung up, announced and removed. -/
structure Cleaning (start state : ShellState) (sent : List (Nat × Signal))
    (hung announced removed : List JobId) : Prop where
  idle : state.handler = .idle
  jobs : state.jobs = start.jobs
  stage : cleanupStage state.control < 5
  current : start.currentJob = hung ++ state.currentJob
  pending : start.pendingJobs = announced ++ (state.control.unprinted ++ state.pendingJobs)
  pendingRemoved : start.pendingRemovedJobs = removed ++ state.pendingRemovedJobs
  sent_eq : sent = hung.flatMap (hangUp start.jobs)
  accesses : state.accesses = removed.reverse.flatMap destruction ++
    (announced.reverse.map .used ++ (hung.reverse.flatMap destruction ++ start.accesses))
  hungUp : 0 < cleanupStage state.control → state.currentJob = []
  reaped : 1 < cleanupStage state.control → state.children = []
  unannounced : cleanupStage state.control < 2 → announced = []
  printed : 2 < cleanupStage state.control → state.pendingJobs = []
  unremoved : cleanupStage state.control < 3 → removed = []
  cleared : 3 < cleanupStage state.control → state.pendingRemovedJobs = []

variable {start state next : ShellState} {sent : List (Nat × Signal)}
  {hung announced removed : List JobId}

theorem Cleaning.goto (cleaning : Cleaning start state sent hung announced removed)
    {control : Control} (stage : cleanupStage control = cleanupStage state.control + 1)
    (finishes : cleanupStage control < 5) (here : state.control.unprinted = [])
    (there : control.unprinted = [])
    (hungUp : cleanupStage state.control = 0 → state.currentJob = [])
    (reaped : cleanupStage state.control = 1 → state.children = [])
    (printed : cleanupStage state.control = 2 → state.pendingJobs = [])
    (cleared : cleanupStage state.control = 3 → state.pendingRemovedJobs = []) :
    Cleaning start (state.goto control) sent hung announced removed where
  idle := cleaning.idle
  jobs := cleaning.jobs
  stage := finishes
  current := cleaning.current
  pending := by simpa [ShellState.goto, here, there] using cleaning.pending
  pendingRemoved := cleaning.pendingRemoved
  sent_eq := cleaning.sent_eq
  accesses := cleaning.accesses
  hungUp later := by
    rcases Nat.eq_zero_or_pos (cleanupStage state.control) with here | before
    · exact hungUp here
    · exact cleaning.hungUp before
  reaped later := by
    have later : 1 < cleanupStage control := later
    rcases Nat.lt_or_ge 1 (cleanupStage state.control) with before | here
    · exact cleaning.reaped before
    · exact reaped (by omega)
  unannounced early := by
    have early : cleanupStage control < 2 := early
    exact cleaning.unannounced (by omega)
  printed later := by
    have later : 2 < cleanupStage control := later
    rcases Nat.lt_or_ge 2 (cleanupStage state.control) with before | here
    · exact cleaning.printed before
    · exact printed (by omega)
  unremoved early := by
    have early : cleanupStage control < 3 := early
    exact cleaning.unremoved (by omega)
  cleared later := by
    have later : 3 < cleanupStage control := later
    rcases Nat.lt_or_ge 3 (cleanupStage state.control) with before | here
    · exact cleaning.cleared before
    · exact cleared (by omega)

theorem Cleaning.children (cleaning : Cleaning start state sent hung announced removed)
    {children : List Child} (fewer : state.children = [] → children = []) :
    Cleaning start { state with children } sent hung announced removed where
  __ := cleaning
  reaped later := fewer (cleaning.reaped later)

theorem Cleaning.childStep (cleaning : Cleaning start state sent hung announced removed)
    {event : ChildEvent} (taken : childStep state event = some next) :
    Cleaning start next sent hung announced removed := by
  have emptied : ∀ pid status, state.children = [] →
      setStatus pid status state.children = [] := by
    intro pid status empty
    simp [setStatus, empty]
  cases event <;>
  · simp only [Shell.childStep] at taken
    split at taken <;> cases taken
    exact cleaning.children (emptied _ _)

theorem Cleaning.hangUpFirst (cleaning : Cleaning start state sent hung announced removed)
    (here : state.control = .draining) {job : JobId} {rest : List JobId}
    (listed : state.currentJob = job :: rest) :
    Cleaning start { state with
      currentJob := rest
      accesses := .destroyed job :: .used job :: state.accesses }
      (sent ++ hangUp state.jobs job) (hung ++ [job]) announced removed where
  __ := cleaning
  current := by simp [cleaning.current, listed]
  sent_eq := by simp [cleaning.sent_eq, cleaning.jobs]
  accesses := by
    have announcedNone := cleaning.unannounced (by simp [here, cleanupStage])
    have removedNone := cleaning.unremoved (by simp [here, cleanupStage])
    simp [cleaning.accesses, announcedNone, removedNone, destruction]
  hungUp later := by simp [here, cleanupStage] at later

theorem Cleaning.takeFirst (cleaning : Cleaning start state sent hung announced removed)
    (here : state.control = .printing true) {job : JobId} {rest : List JobId}
    (listed : state.pendingJobs = job :: rest) :
    Cleaning start { state with pendingJobs := rest, control := .showing true job }
      sent hung announced removed where
  __ := cleaning
  stage := by simp [cleanupStage]
  pending := by simp [cleaning.pending, listed, here, Control.unprinted]
  hungUp _ := cleaning.hungUp (by simp [here, cleanupStage])
  reaped _ := cleaning.reaped (by simp [here, cleanupStage])
  unannounced early := by simp [cleanupStage] at early
  printed later := by simp [cleanupStage] at later
  unremoved _ := cleaning.unremoved (by simp [here, cleanupStage])
  cleared later := by simp [cleanupStage] at later

theorem Cleaning.printFirst (cleaning : Cleaning start state sent hung announced removed)
    {job : JobId} (here : state.control = .showing true job) :
    Cleaning start { state.use [job] with control := .printing true }
      sent hung (announced ++ [job]) removed where
  __ := cleaning
  stage := by simp [cleanupStage]
  pending := by simp [ShellState.use, cleaning.pending, here, Control.unprinted]
  accesses := by
    have removedNone := cleaning.unremoved (by simp [here, cleanupStage])
    simp [ShellState.use, cleaning.accesses, removedNone]
  hungUp _ := cleaning.hungUp (by simp [here, cleanupStage])
  reaped _ := cleaning.reaped (by simp [here, cleanupStage])
  unannounced early := by simp [cleanupStage] at early
  printed later := by simp [cleanupStage] at later
  unremoved _ := cleaning.unremoved (by simp [here, cleanupStage])
  cleared later := by simp [cleanupStage] at later

theorem Cleaning.removeFirst (cleaning : Cleaning start state sent hung announced removed)
    (here : state.control = .removing true) {job : JobId} {rest : List JobId}
    (listed : state.pendingRemovedJobs = job :: rest) :
    Cleaning start { state with
      pendingRemovedJobs := rest
      accesses := .destroyed job :: .used job :: state.accesses }
      sent hung announced (removed ++ [job]) where
  __ := cleaning
  pendingRemoved := by simp [cleaning.pendingRemoved, listed]
  accesses := by simp [cleaning.accesses, destruction]
  unremoved early := by simp [here, cleanupStage] at early
  cleared later := by simp [here, cleanupStage] at later

def InCleanup (start : ShellState) (session : ShellState × List (Nat × Signal)) : Prop :=
  ∃ hung announced removed, Cleaning start session.1 session.2 hung announced removed

theorem Cleaning.mainStep (cleaning : Cleaning start state sent hung announced removed)
    {event : MainEvent} (taken : mainStep state event = some next) :
    InCleanup start (next, sent ++ signals state (.main event)) := by
  have stage := cleaning.stage
  unfold Shell.mainStep at taken
  rw [if_pos cleaning.idle] at taken
  cases here : state.control with
  | draining =>
    simp only [controlStep, here, drainStep] at taken
    split at taken
    next =>
      split at taken <;> cases taken
      next job rest listed =>
        refine ⟨hung ++ [job], announced, removed, ?_⟩
        simpa [signals, here, listed, hangUp] using cleaning.hangUpFirst here listed
      next empty =>
        refine ⟨hung, announced, removed, ?_⟩
        simp only [signals, here, empty, List.append_nil]
        exact cleaning.goto (by simp [here, cleanupStage]) (by simp [cleanupStage])
          (by rw [here]; rfl) rfl
          (fun _ => empty) (by simp [here, cleanupStage]) (by simp [here, cleanupStage])
          (by simp [here, cleanupStage])
    next => simp at taken
  | reaping =>
    rw [controlStep, here] at taken
    dsimp only [reapStep] at taken
    refine ⟨hung, announced, removed, ?_⟩
    simp only [signals, here, List.append_nil]
    split at taken
    next pid =>
      obtain ⟨outcome, returned, rfl⟩ := Option.map_eq_some_iff.mp taken
      refine cleaning.children fun empty => ?_
      simp [waitpid, empty] at returned
    next =>
      split at taken <;> cases taken
      next empty =>
        exact cleaning.goto (by simp [here, cleanupStage]) (by simp [cleanupStage])
          (by rw [here]; rfl) rfl
          (by simp [here, cleanupStage]) (fun _ => empty) (by simp [here, cleanupStage])
          (by simp [here, cleanupStage])
    next => simp at taken
  | printing ending =>
    cases ending with
    | false => simp [here, cleanupStage] at stage
    | true =>
      simp only [controlStep, here, printStep] at taken
      split at taken
      next =>
        split at taken <;> cases taken
        next job rest listed =>
          refine ⟨hung, announced, removed, ?_⟩
          simpa [signals, here] using cleaning.takeFirst here listed
        next empty =>
          refine ⟨hung, announced, removed, ?_⟩
          simp only [signals, here, List.append_nil]
          exact cleaning.goto (by simp [here, cleanupStage]) (by simp [cleanupStage])
            (by rw [here]; rfl) rfl
            (by simp [here, cleanupStage]) (by simp [here, cleanupStage]) (fun _ => empty)
            (by simp [here, cleanupStage])
      next => simp at taken
  | showing ending job =>
    cases ending with
    | false => simp [here, cleanupStage] at stage
    | true =>
      simp only [controlStep, here, showStep] at taken
      split at taken <;> cases taken
      refine ⟨hung, announced ++ [job], removed, ?_⟩
      simpa [signals, here] using cleaning.printFirst here
  | removing ending =>
    cases ending with
    | false => simp [here, cleanupStage] at stage
    | true =>
      simp only [controlStep, here, removeStep] at taken
      split at taken
      next =>
        split at taken <;> cases taken
        next job rest listed =>
          refine ⟨hung, announced, removed ++ [job], ?_⟩
          simpa [signals, here] using cleaning.removeFirst here listed
        next empty =>
          refine ⟨hung, announced, removed, ?_⟩
          simp only [signals, here, List.append_nil]
          exact cleaning.goto (by simp [here, cleanupStage]) (by simp [cleanupStage])
            (by rw [here]; rfl) rfl
            (by simp [here, cleanupStage]) (by simp [here, cleanupStage])
            (by simp [here, cleanupStage]) (fun _ => empty)
      next => simp at taken
  | finished => simp [controlStep, here] at taken
  | _ => simp [here, cleanupStage] at stage

theorem Cleaning.step (cleaning : Cleaning start state sent hung announced removed)
    {event : ShellEvent} (taken : shellStep state event = some next) :
    InCleanup start (next, sent ++ signals state event) := by
  cases event with
  | child event =>
    refine ⟨hung, announced, removed, ?_⟩
    simpa [signals] using cleaning.childStep taken
  | main event => exact cleaning.mainStep taken
  | handler event =>
    -- SIGCHLD is blocked, so that no handler runs.
    have blocked : state.control.unmasked = false := by
      have stage := cleaning.stage
      cases here : state.control with
      | printing ending => cases ending <;> simp_all [cleanupStage, Control.unmasked]
      | showing ending job => cases ending <;> simp_all [cleanupStage, Control.unmasked]
      | removing ending => cases ending <;> simp_all [cleanupStage, Control.unmasked]
      | _ => simp_all [cleanupStage, Control.unmasked]
    cases event with
    | delivered => simp [Shell.shellStep, handlerStep, blocked] at taken
    | polled pid => cases pid <;> simp [Shell.shellStep, handlerStep, cleaning.idle] at taken
    | swept pid => cases pid <;> simp [Shell.shellStep, handlerStep, cleaning.idle] at taken

theorem Cleaning.initial (draining : start.control = .draining) (idle : start.handler = .idle) :
    Cleaning start start [] [] [] [] := by
  constructor <;> simp [idle, draining, cleanupStage, Control.unprinted]

theorem inCleanup_reached {last : ShellState × List (Nat × Signal)}
    (draining : start.control = .draining) (idle : start.handler = .idle)
    (reached : Reachable signalStep (start, []) last) : InCleanup start last := by
  refine reached.invariant (InCleanup start) ⟨[], [], [], .initial draining idle⟩ ?_
  rintro session event _ ⟨hung, announced, removed, cleaning⟩ _ signalled
  obtain ⟨next, taken, rfl⟩ := Option.map_eq_some_iff.mp signalled
  exact cleaning.step taken

def unended (children : List Child) : Nat :=
  children.countP fun child => child.status ≠ .zombie

def cleanupWork (state : ShellState) : Nat :=
  4 - cleanupStage state.control + state.currentJob.length + 2 * state.pendingJobs.length +
    state.control.unprinted.length + state.pendingRemovedJobs.length + state.children.length +
    unended state.children

theorem exited_fewer {child : Child} (rest : List Child) (running : child.status ≠ .zombie) :
    unended (setStatus child.pid .zombie (child :: rest)) < unended (child :: rest) := by
  have others : unended (setStatus child.pid .zombie rest) ≤ unended rest := by
    simp only [unended, setStatus, List.countP_map]
    refine List.countP_mono_left fun other _ alive => ?_
    simp only [Function.comp, decide_eq_true_eq] at alive ⊢
    split at alive
    · exact absurd rfl alive
    · exact alive
  have first : unended (setStatus child.pid .zombie (child :: rest)) =
      unended (setStatus child.pid .zombie rest) := by
    simp [unended, setStatus]
  have counted : unended (child :: rest) = unended rest + 1 := by
    simp [unended, running]
  omega

theorem reaped_fewer (child : Child) (rest : List Child) :
    (reapChild child.pid (child :: rest)).length < (child :: rest).length ∧
      unended (reapChild child.pid (child :: rest)) ≤ unended (child :: rest) := by
  have kept : reapChild child.pid (child :: rest) = reapChild child.pid rest := by
    simp [reapChild]
  have sub : (reapChild child.pid rest).Sublist rest := List.filter_sublist
  rw [kept]
  refine ⟨Nat.lt_succ_of_le sub.length_le, ?_⟩
  exact (sub.trans (List.sublist_cons_self child rest)).countP_le

theorem cleanup_advances (idle : state.handler = .idle) (inside : cleanupStage state.control < 4) :
    ∃ event next, shellStep state event = some next ∧ next.handler = .idle ∧
      cleanupStage next.control < 5 ∧ cleanupWork next < cleanupWork state := by
  have main : ∀ event, shellStep state (.main event) = controlStep state event := by
    intro event
    simp [shellStep, mainStep, idle]
  cases here : state.control with
  | draining =>
    cases listed : state.currentJob with
    | nil =>
      refine ⟨.main .drained, state.goto .reaping, ?_, idle, ?_, ?_⟩
      · simp [main, controlStep, here, drainStep, listed]
      · simp [ShellState.goto, cleanupStage]
      · simp [cleanupWork, ShellState.goto, here, cleanupStage, Control.unprinted]
    | cons job rest =>
      refine ⟨.main .drained, { state with
        currentJob := rest
        accesses := .destroyed job :: .used job :: state.accesses }, ?_, idle, ?_, ?_⟩
      · simp [main, controlStep, here, drainStep, listed]
      · simp [here, cleanupStage]
      · simp [cleanupWork, listed]
  | reaping =>
    cases present : state.children with
    | nil =>
      refine ⟨.main (.reaped none), state.goto (.printing true), ?_, idle, ?_, ?_⟩
      · simp [main, controlStep, here, reapStep, present]
      · simp [ShellState.goto, cleanupStage]
      · simp [cleanupWork, ShellState.goto, here, cleanupStage, Control.unprinted]
    | cons child rest =>
      by_cases zombie : child.status = .zombie
      · have fewer := reaped_fewer child rest
        refine ⟨.main (.reaped (some child.pid)),
          { state with children := reapChild child.pid state.children }, ?_, idle, ?_, ?_⟩
        · simp [main, controlStep, here, reapStep, present, waitpid, anyChild, zombie]
        · simp [here, cleanupStage]
        · simp only [cleanupWork, present]
          omega
      · have fewer := exited_fewer rest zombie
        refine ⟨.child (.exited child.pid),
          { state with children := setStatus child.pid .zombie state.children }, ?_, idle, ?_, ?_⟩
        · simp [shellStep, childStep, present, zombie]
        · simp [here, cleanupStage]
        · have same : (setStatus child.pid .zombie (child :: rest)).length =
              (child :: rest).length := List.length_map _
          simp only [cleanupWork, present]
          omega
  | printing ending =>
    cases ending with
    | false => simp [here, cleanupStage] at inside
    | true =>
      cases listed : state.pendingJobs with
      | nil =>
        refine ⟨.main .unqueued, state.goto (.removing true), ?_, idle, ?_, ?_⟩
        · simp [main, controlStep, here, printStep, listed]
        · simp [ShellState.goto, cleanupStage]
        · simp [cleanupWork, ShellState.goto, here, cleanupStage, Control.unprinted]
      | cons job rest =>
        refine ⟨.main .unqueued, { state with pendingJobs := rest, control := .showing true job },
          ?_, idle, ?_, ?_⟩
        · simp [main, controlStep, here, printStep, listed]
        · simp [cleanupStage]
        · simp only [cleanupWork, here, listed, cleanupStage, Control.unprinted, List.length_cons,
            List.length_nil]
          omega
  | showing ending job =>
    cases ending with
    | false => simp [here, cleanupStage] at inside
    | true =>
      refine ⟨.main .printed, { state.use [job] with control := .printing true }, ?_, idle, ?_, ?_⟩
      · simp [main, controlStep, here, showStep]
      · simp [cleanupStage]
      · simp [cleanupWork, ShellState.use, here, cleanupStage, Control.unprinted]
  | removing ending =>
    cases ending with
    | false => simp [here, cleanupStage] at inside
    | true =>
      cases listed : state.pendingRemovedJobs with
      | nil =>
        refine ⟨.main .removed, state.goto .finished, ?_, idle, ?_, ?_⟩
        · simp [main, controlStep, here, removeStep, listed]
        · simp [ShellState.goto, cleanupStage]
        · simp [cleanupWork, ShellState.goto, here, cleanupStage, Control.unprinted]
      | cons job rest =>
        refine ⟨.main .removed, { state with
          pendingRemovedJobs := rest
          accesses := .destroyed job :: .used job :: state.accesses }, ?_, idle, ?_, ?_⟩
        · simp [main, controlStep, here, removeStep, listed]
        · simp [here, cleanupStage]
        · simp [cleanupWork, listed]
  | _ => simp [here, cleanupStage] at inside

theorem cleanup_ends (work : Nat) : ∀ {state : ShellState}, cleanupWork state = work →
    state.handler = .idle → cleanupStage state.control < 5 →
    ∃ final, Reachable shellStep state final ∧ final.control = .finished := by
  induction work using Nat.strong_induction_on with
  | _ work ih =>
    intro state counted idle inside
    by_cases finished : state.control = .finished
    · exact ⟨state, .refl, finished⟩
    have unfinished : cleanupStage state.control < 4 := by
      cases here : state.control with
      | printing ending => cases ending <;> simp_all [cleanupStage]
      | showing ending job => cases ending <;> simp_all [cleanupStage]
      | removing ending => cases ending <;> simp_all [cleanupStage]
      | _ => simp_all [cleanupStage]
    obtain ⟨event, next, taken, idle, inside, fewer⟩ := cleanup_advances idle unfinished
    obtain ⟨final, later, ended⟩ := ih _ (counted ▸ fewer) rfl idle inside
    exact ⟨final, (Reaches.next .refl trivial taken).trans later, ended⟩

/-- cleanup hangs up every listed job once and in order, and signals nothing else; it ends with no
child left, each job it took from a list destroyed; and it can end from wherever it has come. -/
theorem cleanup_hangs_up {last : ShellState × List (Nat × Signal)}
    (draining : start.control = .draining) (idle : start.handler = .idle)
    (reached : Reachable signalStep (start, []) last) :
    last.2 <+: start.currentJob.flatMap (hangUp start.jobs) ∧
    (last.1.control = .finished → last.2 = start.currentJob.flatMap (hangUp start.jobs) ∧
      last.1.children = [] ∧ last.1.currentJob = [] ∧ last.1.accesses =
        start.pendingRemovedJobs.reverse.flatMap destruction ++
          (start.pendingJobs.reverse.map .used ++
            (start.currentJob.reverse.flatMap destruction ++ start.accesses))) ∧
    ∃ final, Reachable shellStep last.1 final ∧ final.control = .finished := by
  obtain ⟨hung, announced, removed, cleaning⟩ := inCleanup_reached draining idle reached
  refine ⟨?_, fun finished => ?_, cleanup_ends _ rfl cleaning.idle cleaning.stage⟩
  next =>
    rw [cleaning.current, cleaning.sent_eq, List.flatMap_append]
    exact List.prefix_append _ _
  next =>
    have done : cleanupStage last.1.control = 4 := by rw [finished]; rfl
    have hungUp := cleaning.hungUp (by omega)
    have current := cleaning.current
    have pending := cleaning.pending
    have pendingRemoved := cleaning.pendingRemoved
    rw [hungUp, List.append_nil] at current
    rw [finished, cleaning.printed (by omega)] at pending
    rw [show Control.finished.unprinted ++ [] = [] from rfl, List.append_nil] at pending
    rw [cleaning.cleared (by omega), List.append_nil] at pendingRemoved
    rw [current, pending, pendingRemoved]
    exact ⟨cleaning.sent_eq, cleaning.reaped (by omega), hungUp, cleaning.accesses⟩

def hungUpRun : List ShellEvent :=
  [.main .drained, .main .drained, .child (.exited 100), .main (.reaped (some 100)),
    .main (.reaped none), .main .unqueued, .main .removed]

theorem cleanup_hangs_up_leftBehind :
    let start := arrival shellStep (fun _ _ => True) initialShell leftBehind
    let last := arrival signalStep (fun _ _ => True) (start, []) hungUpRun
    (last.1.control = .finished ∧ last.2 = [(100, .hup), (100, .cont)]) ∧
    last.2 <+: start.currentJob.flatMap (hangUp start.jobs) ∧
    (last.1.control = .finished → last.2 = start.currentJob.flatMap (hangUp start.jobs) ∧
      last.1.children = [] ∧ last.1.currentJob = [] ∧ last.1.accesses =
        start.pendingRemovedJobs.reverse.flatMap destruction ++
          (start.pendingJobs.reverse.map .used ++
            (start.currentJob.reverse.flatMap destruction ++ start.accesses))) ∧
    ∃ final, Reachable shellStep last.1 final ∧ final.control = .finished :=
  ⟨by decide +kernel, cleanup_hangs_up (by decide +kernel) (by decide +kernel)
    (reaches_arrival hungUpRun)⟩

end Akiso.Shell
