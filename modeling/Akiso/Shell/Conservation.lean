import Akiso.Shell.Consistency

set_option autoImplicit false

namespace Akiso.Shell

open Transition

/-- A pid_t is an int; group 1 is init's, and no child of the shell is in it. -/
structure Separated (state : ShellState) : Prop where
  running : state.control ≠ .crashed
  handles : (state.currentJob ++ state.pendingRemovedJobs).Nodup
  separate : ∀ job ∈ state.currentJob, ∀ other ∈ state.currentJob,
    (state.jobs job).pgid = (state.jobs other).pgid → job = other
  positive : ∀ job ∈ state.currentJob, 1 < (state.jobs job).pgid
  grouped : ∀ job ∈ state.currentJob, ∀ child ∈ state.children,
    child.pgid = (state.jobs job).pgid → child.job = job
  pids : DistinctPids state.children
  bounded : ∀ child ∈ state.children, 0 < child.pid ∧ child.pid < 2147483648

structure Entered (state : ShellState) : Prop extends Separated state where
  entered : state.handler = .visiting state.currentJob
  counted : ∀ job ∈ state.currentJob, (state.jobs job).pipelineSize = state.members job

def OnExactlyOne (state : ShellState) (job : JobId) : Prop :=
  state.currentJob.count job + state.pendingRemovedJobs.count job = 1

def MovesRetired (state : ShellState) (event : ShellEvent) : Prop :=
  ∀ next, shellStep state event = some next →
    ∀ job ∈ state.currentJob, job ∈ next.pendingRemovedJobs → next.members job = 0

def Busy (state : ShellState) (_ : ShellEvent) : Prop :=
  state.handler ≠ .idle

instance (state : ShellState) (event : ShellEvent) : Decidable (Busy state event) :=
  inferInstanceAs (Decidable (state.handler ≠ .idle))

def Conserves (start : ShellState) (events : List ShellEvent) (last : ShellState) : Prop :=
  last.control ≠ .crashed ∧
    (∀ job ∈ start.currentJob ++ start.pendingRemovedJobs, OnExactlyOne last job) ∧
    Always shellStep MovesRetired start events

-- What the sweep reaps is the last member of the listed job whose group it led, or leads no listed
-- job's group while pending_removed_jobs is empty.
def SoundSweep (state : ShellState) : ShellEvent → Prop
  | .handler (.swept (some pid)) =>
    (∀ job ∈ state.currentJob, (state.jobs job).pgid = pid →
      ∀ child ∈ state.children, child.job = job → child.pid = pid) ∧
    ((∀ job ∈ state.currentJob, (state.jobs job).pgid ≠ pid) → state.pendingRemovedJobs = [])
  | _ => True

instance (state : ShellState) : ∀ event, Decidable (SoundSweep state event)
  | .handler (.swept (some pid)) =>
    inferInstanceAs (Decidable ((∀ job ∈ state.currentJob, (state.jobs job).pgid = pid →
      ∀ child ∈ state.children, child.job = job → child.pid = pid) ∧
      ((∀ job ∈ state.currentJob, (state.jobs job).pgid ≠ pid) → state.pendingRemovedJobs = [])))
  | .handler (.swept none) => isTrue True.intro
  | .handler .delivered => isTrue True.intro
  | .handler (.polled _) => isTrue True.intro
  | .child _ => isTrue True.intro
  | .main _ => isTrue True.intro

/-- Only the jobs still to be visited are counted: a sweep leaves pipeline_size alone. -/
structure Underway (state : ShellState) : Prop extends Separated state where
  visits : ∀ left, state.handler = .visiting left → left.Nodup ∧ left ⊆ state.currentJob ∧
    ∀ job ∈ left, (state.jobs job).pipelineSize = state.members job

structure Kept (state next : ShellState) : Prop where
  underway : Underway next
  lists : (next.currentJob ++ next.pendingRemovedJobs).Perm
    (state.currentJob ++ state.pendingRemovedJobs)
  moved : ∀ job ∈ state.currentJob, job ∈ next.pendingRemovedJobs → next.members job = 0

theorem Entered.underway {state : ShellState} (entered : Entered state) : Underway state where
  toSeparated := entered.toSeparated
  visits left here := by
    rw [entered.entered, Handler.visiting.injEq] at here
    subst here
    exact ⟨(List.nodup_append.mp entered.handles).1, List.Subset.refl _, entered.counted⟩

namespace Separated

variable {state next : ShellState}

theorem frame (separated : Separated state) (running : next.control ≠ .crashed)
    (lists : (next.currentJob ++ next.pendingRemovedJobs).Perm
      (state.currentJob ++ state.pendingRemovedJobs))
    (listed : next.currentJob ⊆ state.currentJob)
    (pgids : ∀ job, (next.jobs job).pgid = (state.jobs job).pgid)
    (children : ∀ child ∈ next.children, ∃ old ∈ state.children,
      old.pid = child.pid ∧ old.pgid = child.pgid ∧ old.job = child.job)
    (pids : DistinctPids next.children) : Separated next where
  running := running
  handles := lists.nodup_iff.mpr separated.handles
  separate job member other otherMember := by
    rw [pgids job, pgids other]
    exact separated.separate job (listed member) other (listed otherMember)
  positive job member := by
    rw [pgids job]
    exact separated.positive job (listed member)
  grouped job member child present := by
    obtain ⟨old, oldPresent, _, pgid, same⟩ := children child present
    rw [pgids job, ← pgid, ← same]
    exact separated.grouped job (listed member) old oldPresent
  pids := pids
  bounded child present := by
    obtain ⟨old, oldPresent, pid, _, _⟩ := children child present
    exact pid ▸ separated.bounded old oldPresent

theorem unmoved (separated : Separated state) {job : JobId} (listed : job ∈ state.currentJob) :
    job ∉ state.pendingRemovedJobs := by
  intro pending
  exact (List.nodup_append.mp separated.handles).2.2 job listed job pending rfl

theorem members_lt (separated : Separated state) (job : JobId) :
    state.members job < 4294967296 := by
  have few : (state.children.map Child.pid).length < 2147483648 := by
    apply length_lt_of_positive (List.pairwise_map.mpr separated.pids)
    · intro pid member
      obtain ⟨child, present, rfl⟩ := List.mem_map.mp member
      exact separated.bounded child present
    · omega
  have counted : state.members job ≤ state.children.length := List.countP_le_length
  rw [List.length_map] at few
  omega

end Separated

section Sweep

variable (state : ShellState) {pid : Nat}

theorem sweepChild_found {job : JobId}
    (removed : (removeJobHandle state.jobs pid state.currentJob).1 = some job) :
    sweepChild state pid =
      { state.use (examined state.jobs pid state.currentJob) with
        currentJob := (removeJobHandle state.jobs pid state.currentJob).2
        pendingRemovedJobs := job :: state.pendingRemovedJobs } := by
  simp [sweepChild, removed, addFirst]

theorem sweepChild_missed
    (missing : (removeJobHandle state.jobs pid state.currentJob).1 = none)
    (empty : state.pendingRemovedJobs = []) :
    sweepChild state pid = state.use (examined state.jobs pid state.currentJob) := by
  simp [sweepChild, missing, addFirst, empty, removeJobHandle_none missing, ShellState.use]

theorem sweepChild_null
    (missing : (removeJobHandle state.jobs pid state.currentJob).1 = none)
    (pending : state.pendingRemovedJobs ≠ []) :
    sweepChild state pid = (state.use (examined state.jobs pid state.currentJob)).crash := by
  obtain ⟨job, rest, split⟩ := List.exists_cons_of_ne_nil pending
  simp [sweepChild, missing, addFirst, split]

end Sweep

namespace Underway

variable {state next : ShellState}

theorem kept (underway : Underway state) (after : Underway next)
    (current : next.currentJob = state.currentJob)
    (removed : next.pendingRemovedJobs = state.pendingRemovedJobs) : Kept state next where
  underway := after
  lists := by rw [current, removed]
  moved job listed pending := absurd (removed ▸ pending) (underway.unmoved listed)

theorem setStatus (underway : Underway state) (pid : Nat) (status : ChildStatus) :
    Underway { state with children := Shell.setStatus pid status state.children } where
  toSeparated := by
    apply underway.frame
    · exact underway.running
    · exact List.Perm.refl _
    · exact List.Subset.refl _
    · exact fun _ => rfl
    · exact fun _ present => mem_setStatus present
    · exact distinctPids_setStatus underway.pids
  visits left here := by
    obtain ⟨nodup, listed, counted⟩ := underway.visits left here
    refine ⟨nodup, listed, fun job member => ?_⟩
    rw [members_eq, membersOf_setStatus]
    exact counted job member

theorem childStep (underway : Underway state) {event : ChildEvent}
    (taken : Shell.childStep state event = some next) : Kept state next := by
  unfold Shell.childStep at taken
  split at taken
  all_goals
    split at taken <;> cases taken
    apply underway.kept (underway.setStatus _ _) <;> rfl

theorem poll_stopped (underway : Underway state) (job : JobId) (pid : Nat) :
    Underway
      { (state.use [job]).setJob job ((state.jobs job).absorb .stopped) with
        children := Shell.setStatus pid (.stopped true) state.children } := by
  have same := update_accounts state.jobs job ((state.jobs job).absorb .stopped) rfl rfl
  have marked := underway.setStatus pid (.stopped true)
  constructor
  · apply marked.frame
    · exact underway.running
    · exact List.Perm.refl _
    · exact List.Subset.refl _
    · exact fun other => (same other).1
    · exact fun child present => ⟨child, present, rfl, rfl, rfl⟩
    · exact marked.pids
  · intro left here
    obtain ⟨nodup, listed, counted⟩ := marked.visits left here
    refine ⟨nodup, listed, fun other member => ?_⟩
    exact (same other).2.trans (counted other member)

theorem poll_ended (underway : Underway state) {job : JobId} {rest : List JobId}
    {child : Child} (visiting : state.handler = .visiting (job :: rest))
    (present : child ∈ state.children) (member : child.job = job) :
    Underway
      { (state.use [job]).setJob job ((state.jobs job).absorb .ended) with
        children := reapChild child.pid state.children } := by
  obtain ⟨nodup, listed, counted⟩ := underway.visits _ visiting
  constructor
  · apply underway.frame
    · exact underway.running
    · exact List.Perm.refl _
    · exact List.Subset.refl _
    · intro other
      by_cases same : other = job <;>
        simp [ShellState.setJob, ShellState.use, Job.absorb, same]
    · exact fun other kept => ⟨other, List.mem_of_mem_filter kept, rfl, rfl, rfl⟩
    · exact distinctPids_reapChild underway.pids
  · intro left here
    have still : state.handler = .visiting left := here
    have same : left = job :: rest := Handler.visiting.inj (still.symm.trans visiting)
    subst same
    refine ⟨nodup, listed, fun other later => ?_⟩
    have count := membersOf_reapChild other underway.pids present
    have old := counted other later
    have few := underway.members_lt other
    rw [members_eq] at old few ⊢
    rw [member] at count
    by_cases same : other = job
    · subst same
      simp only [ShellState.setJob, Function.update_self, Job.absorb]
      rw [old, ← count, if_pos rfl, sizeDecrement_succ (by omega)]
    · rw [if_neg (Ne.symm same)] at count
      simp only [ShellState.setJob, ShellState.use, Function.update_of_ne same]
      exact old.trans count.symm

theorem leaveHandle (underway : Underway state) {job : JobId} {rest : List JobId}
    (visiting : state.handler = .visiting (job :: rest)) :
    Kept state (Shell.leaveHandle state job rest) := by
  obtain ⟨nodup, listed, counted⟩ := underway.visits _ visiting
  obtain ⟨absent, nodup⟩ := List.nodup_cons.mp nodup
  have here := listed List.mem_cons_self
  unfold Shell.leaveHandle
  by_cases zero : sizeIsZero (state.jobs job).pipelineSize
  · obtain ⟨before, after, split, removed⟩ :=
      removeJobHandle_listed underway.separate here (Nat.lt_of_succ_lt (underway.positive job here))
    have none : state.members job = 0 := by
      have few := underway.members_lt job
      rw [counted job List.mem_cons_self] at zero
      exact (Nat.mod_eq_of_lt few).symm.trans zero
    have lists : (before ++ after ++ (state.pendingRemovedJobs ++ [job])).Perm
        (state.currentJob ++ state.pendingRemovedJobs) := by
      rw [split, ← List.append_assoc]
      exact (List.perm_append_comm).trans ((List.perm_middle.symm).append_right _)
    have fewer : before ++ after ⊆ state.currentJob := by
      rw [split]
      exact (List.sublist_cons_self job after).append_left before |>.subset
    simp only [zero, if_true, removed, Option.toList_some]
    constructor
    · constructor
      · apply underway.frame
        · exact underway.running
        · exact lists
        · exact fewer
        · exact fun _ => rfl
        · exact fun child present => ⟨child, present, rfl, rfl, rfl⟩
        · exact underway.pids
      · intro left now
        have same : rest = left := Handler.visiting.inj now
        subst same
        refine ⟨nodup, fun other later => ?_, fun other later => ?_⟩
        · have member := listed (List.mem_cons_of_mem job later)
          rw [split] at member
          have apart : other ≠ job := fun same => absent (same ▸ later)
          have middle := List.perm_middle.subset member
          exact (List.mem_cons.mp middle).resolve_left apart
        · exact counted other (List.mem_cons_of_mem job later)
    · exact lists
    · intro other otherListed pending
      rcases List.mem_append.mp pending with old | new
      · exact absurd old (underway.unmoved otherListed)
      · rw [List.mem_singleton.mp new]
        exact none
  · simp only [zero, if_false]
    apply underway.kept
    · constructor
      · exact underway.toSeparated.frame underway.running (List.Perm.refl _) (List.Subset.refl _)
          (fun _ => rfl) (fun child present => ⟨child, present, rfl, rfl, rfl⟩) underway.pids
      · intro left now
        have same : rest = left := Handler.visiting.inj now
        subst same
        exact ⟨nodup, fun other later => listed (List.mem_cons_of_mem job later),
          fun other later => counted other (List.mem_cons_of_mem job later)⟩
    · rfl
    · rfl

theorem removeJobHandle_pid {pid : Nat} (positive : 0 < pid) {job : JobId}
    (removed : (removeJobHandle state.jobs pid state.currentJob).1 = some job) :
    job ∈ state.currentJob ∧ (state.jobs job).pgid = pid := by
  obtain ⟨before, after, split, _, matched⟩ := removeJobHandle_some removed
  exact ⟨by simp [split], matched.resolve_right (by omega)⟩

theorem reaped (underway : Underway state) (sweeping : state.handler = .visiting []) (pid : Nat)
    {current removed : List JobId} (accesses : List Access)
    (lists : (current ++ removed).Perm (state.currentJob ++ state.pendingRemovedJobs))
    (fewer : current ⊆ state.currentJob) :
    Underway { state with
      children := reapChild pid state.children, currentJob := current
      pendingRemovedJobs := removed, accesses } := by
  constructor
  · apply underway.frame
    · exact underway.running
    · exact lists
    · exact fewer
    · exact fun _ => rfl
    · exact fun child kept => ⟨child, List.mem_of_mem_filter kept, rfl, rfl, rfl⟩
    · exact distinctPids_reapChild underway.pids
  · intro left now
    have same : [] = left := Handler.visiting.inj (sweeping.symm.trans now)
    subst same
    exact ⟨List.nodup_nil, List.nil_subset _, by simp⟩

theorem sweepChild (underway : Underway state) (sweeping : state.handler = .visiting [])
    {child : Child} (present : child ∈ state.children)
    (sound : SoundSweep state (.handler (.swept (some child.pid)))) :
    Kept state (Shell.sweepChild
      { state with children := reapChild child.pid state.children } child.pid) := by
  cases removed : (removeJobHandle state.jobs child.pid state.currentJob).1 with
  | some job =>
    obtain ⟨listed, led⟩ := removeJobHandle_pid (underway.bounded child present).1 removed
    have permuted := removeJobHandle_perm state.jobs child.pid state.currentJob
    rw [removed, Option.toList_some, List.singleton_append] at permuted
    have lists : ((removeJobHandle state.jobs child.pid state.currentJob).2 ++
        job :: state.pendingRemovedJobs).Perm (state.currentJob ++ state.pendingRemovedJobs) :=
      List.perm_middle.trans (permuted.append_right _)
    rw [sweepChild_found { state with children := reapChild child.pid state.children } removed]
    constructor
    · exact underway.reaped sweeping child.pid _ lists
        (removeJobHandle_sublist state.jobs child.pid state.currentJob).subset
    · exact lists
    · intro other otherListed pending
      rcases List.mem_cons.mp pending with same | old
      · subst same
        apply membersOf_eq_zero.mpr
        intro survivor kept member
        obtain ⟨old, apart⟩ := List.mem_filter.mp kept
        exact (of_decide_eq_true apart) (sound.1 other listed led survivor old member)
      · exact absurd old (underway.unmoved otherListed)
  | none =>
    have empty : state.pendingRemovedJobs = [] := by
      apply sound.2
      intro job listed led
      obtain ⟨other, found⟩ := removeJobHandle_isSome listed led
      simp [found] at removed
    rw [sweepChild_missed { state with children := reapChild child.pid state.children } removed
      empty]
    apply underway.kept
    · exact underway.reaped sweeping child.pid _ (List.Perm.refl _) (List.Subset.refl _)
    · rfl
    · rfl

theorem handlerStep (underway : Underway state) (busy : state.handler ≠ .idle)
    {event : HandlerEvent} (sound : SoundSweep state (.handler event))
    (taken : Shell.handlerStep state event = some next) : Kept state next := by
  unfold Shell.handlerStep at taken
  split at taken
  next =>
    split at taken
    next ready => exact absurd ready.1 busy
    next => simp at taken
  next pid =>
    split at taken
    next job rest visiting =>
      obtain ⟨outcome, returned, rfl⟩ := Option.map_eq_some_iff.mp taken
      obtain ⟨child, present, rfl, matched, report⟩ := waitpid_some returned
      have listed := (underway.visits _ visiting).2.1 List.mem_cons_self
      have member := underway.grouped job listed child present (by simpa [inGroup] using matched)
      rcases report with rfl | ⟨_, rfl⟩
      · apply underway.kept (underway.poll_ended visiting present member) <;> rfl
      · apply underway.kept (underway.poll_stopped job child.pid) <;> rfl
    next => simp at taken
  next =>
    split at taken
    next job rest visiting =>
      split at taken <;> cases taken
      exact underway.leaveHandle visiting
    next => simp at taken
  next pid =>
    split at taken
    next sweeping =>
      obtain ⟨outcome, returned, rfl⟩ := Option.map_eq_some_iff.mp taken
      obtain ⟨child, present, rfl, _, report⟩ := waitpid_some returned
      rcases report with rfl | ⟨untraced, _⟩
      · exact underway.sweepChild sweeping present sound
      · simp at untraced
    next => simp at taken
  next =>
    split at taken
    next sweeping =>
      split at taken <;> cases taken
      apply underway.kept
      · exact ⟨underway.toSeparated.frame underway.running (List.Perm.refl _)
          (List.Subset.refl _) (fun _ => rfl) (fun child present => ⟨child, present, rfl, rfl, rfl⟩)
          underway.pids, by simp⟩
      · rfl
      · rfl
    next => simp at taken

theorem step (underway : Underway state) (busy : state.handler ≠ .idle) {event : ShellEvent}
    (sound : SoundSweep state event) (taken : shellStep state event = some next) :
    Kept state next := by
  cases event with
  | child event => exact underway.childStep taken
  | handler event => exact underway.handlerStep busy sound taken
  | main event =>
    unfold shellStep mainStep at taken
    simp [busy] at taken

-- The induction is on the events of the run, with the state they start from.
theorem run {events : List ShellEvent} {last : ShellState} (underway : Underway state)
    (ran : Transition.run shellStep state events = some last)
    (during : Always shellStep Busy state events)
    (sound : Always shellStep SoundSweep state events) :
    Underway last ∧ (last.currentJob ++ last.pendingRemovedJobs).Perm
      (state.currentJob ++ state.pendingRemovedJobs) ∧
      Always shellStep MovesRetired state events := by
  induction events generalizing state with
  | nil =>
    cases ran
    exact ⟨underway, List.Perm.refl _, True.intro⟩
  | cons event rest ih =>
    obtain ⟨next, taken, ran⟩ := run_cons ran
    have kept := underway.step during.1 sound.1 taken
    obtain ⟨after, lists, moves⟩ :=
      ih kept.underway ran (during.2 next taken) (sound.2 next taken)
    refine ⟨after, lists.trans kept.lists, ?_, ?_⟩
    · intro other same
      cases taken.symm.trans same
      exact kept.moved
    · intro other same
      cases taken.symm.trans same
      exact moves

-- A sweep that is not sound either stores through NULL or moves a job that has members left.
theorem unsound_step (underway : Underway state) {event : ShellEvent}
    (unsound : ¬ SoundSweep state event) (taken : shellStep state event = some next) :
    (next.control = .crashed ∧ next.handler = .idle) ∨ ¬ MovesRetired state event := by
  unfold SoundSweep at unsound
  split at unsound
  next pid =>
    have swept := taken
    simp only [shellStep, Shell.handlerStep] at swept
    split at swept
    next sweeping =>
      obtain ⟨outcome, returned, rfl⟩ := Option.map_eq_some_iff.mp swept
      obtain ⟨child, present, rfl, _, report⟩ := waitpid_some returned
      have reaped : outcome = (.ended, reapChild child.pid state.children) := by
        rcases report with reaped | ⟨untraced, _⟩
        · exact reaped
        · simp at untraced
      subst reaped
      cases removed : (removeJobHandle state.jobs child.pid state.currentJob).1 with
      | some job =>
        obtain ⟨listed, led⟩ := removeJobHandle_pid (underway.bounded child present).1 removed
        refine Or.inr fun moves => unsound ⟨?_, fun unled => absurd led (unled job listed)⟩
        intro other otherListed otherLed member survivor belongs
        have same : other = job :=
          underway.separate other otherListed job listed (otherLed.trans led.symm)
        subst same
        have none := moves _ taken other listed (by
          rw [sweepChild_found { state with children := reapChild child.pid state.children }
            removed]
          exact List.mem_cons_self)
        rw [members_eq, sweepChild_found
          { state with children := reapChild child.pid state.children } removed] at none
        by_contra apart
        have kept : member ∈ reapChild child.pid state.children :=
          List.mem_filter.mpr ⟨survivor, by simpa using apart⟩
        exact membersOf_eq_zero.mp none member kept belongs
      | none =>
        have pending : state.pendingRemovedJobs ≠ [] := by
          intro empty
          apply unsound
          refine ⟨fun job listed led => ?_, fun _ => empty⟩
          obtain ⟨other, found⟩ := removeJobHandle_isSome listed led
          simp [found] at removed
        rw [sweepChild_null { state with children := reapChild child.pid state.children }
          removed pending]
        exact Or.inl ⟨rfl, rfl⟩
    next => simp at swept
  next => exact absurd True.intro unsound

theorem sound_of_run {events : List ShellEvent} {last : ShellState} (underway : Underway state)
    (ran : Transition.run shellStep state events = some last)
    (during : Always shellStep Busy state events) (running : last.control ≠ .crashed)
    (moves : Always shellStep MovesRetired state events) :
    Always shellStep SoundSweep state events := by
  induction events generalizing state with
  | nil => exact True.intro
  | cons event rest ih =>
    obtain ⟨next, taken, ran⟩ := run_cons ran
    have sound : SoundSweep state event := by
      by_contra unsound
      rcases underway.unsound_step unsound taken with ⟨crashed, idle⟩ | stays
      · cases rest with
        | nil =>
          cases ran
          exact running crashed
        | cons later _ => exact (during.2 next taken).1 idle
      · exact stays moves.1
    have kept := underway.step during.1 sound taken
    refine ⟨sound, fun other same => ?_⟩
    cases taken.symm.trans same
    exact ih kept.underway ran (during.2 next taken) (moves.2 next taken)

end Underway

theorem onExactlyOne_of_perm {start last : ShellState} {job : JobId}
    (handles : (start.currentJob ++ start.pendingRemovedJobs).Nodup)
    (lists : (last.currentJob ++ last.pendingRemovedJobs).Perm
      (start.currentJob ++ start.pendingRemovedJobs))
    (listed : job ∈ start.currentJob ++ start.pendingRemovedJobs) : OnExactlyOne last job := by
  unfold OnExactlyOne
  rw [← List.count_append, lists.count_eq]
  exact List.count_eq_one_of_mem handles listed

theorem handler_conserves_iff {start last : ShellState} {events : List ShellEvent}
    (entered : Entered start) (ran : run shellStep start events = some last)
    (during : Always shellStep Busy start events) :
    Conserves start events last ↔ Always shellStep SoundSweep start events := by
  have underway := entered.underway
  constructor
  · rintro ⟨running, _, moves⟩
    exact underway.sound_of_run ran during running moves
  · intro sound
    obtain ⟨after, lists, moves⟩ := underway.run ran during sound
    refine ⟨after.running, fun job listed => ?_, moves⟩
    exact onExactlyOne_of_perm entered.handles lists listed

def pairMember (pid : Nat) (status : ChildStatus) : Child :=
  { pid, pgid := 100, job := 0, status }

def pairListed (leader other : ChildStatus) : ShellState :=
  { initialShell with
    jobs := fun _ => { backgroundJob 2 with pgid := 100 }
    currentJob := [0]
    children := [pairMember 100 leader, pairMember 101 other]
    handler := .visiting [0] }

theorem pairListed_entered (leader other : ChildStatus) : Entered (pairListed leader other) where
  running := by simp [pairListed, initialShell]
  handles := by simp [pairListed, initialShell]
  separate := by simp [pairListed]
  positive := by simp [pairListed]
  grouped := by simp [pairListed, pairMember]
  pids := by simp [DistinctPids, pairListed, pairMember]
  bounded := by simp [pairListed, pairMember]
  entered := rfl
  counted := by
    simp [pairListed, pairMember, ShellState.members, backgroundJob, List.countP_cons]

def leaderLast : List ShellEvent :=
  [.handler (.polled (some 101)), .handler (.polled none), .child (.exited 100),
    .handler (.swept (some 100)), .handler (.swept none)]

theorem handler_conserves_leaderLast : ∃ last,
    run shellStep (pairListed .running .zombie) leaderLast = some last ∧
      Conserves (pairListed .running .zombie) leaderLast last := by
  have returns : (run shellStep (pairListed .running .zombie) leaderLast).isSome := by decide
  obtain ⟨last, ran⟩ := Option.isSome_iff_exists.mp returns
  have sound : Always shellStep SoundSweep (pairListed .running .zombie) leaderLast := by decide
  exact ⟨last, ran,
    (handler_conserves_iff (pairListed_entered _ _) ran (by decide)).mpr sound⟩

-- The leader exits after its group has been polled: the job moves without its other member, whose
-- own exit then finds no job.
def leaderFirst : List ShellEvent :=
  [.handler (.polled none), .child (.exited 100), .handler (.swept (some 100)),
    .child (.exited 101), .handler (.swept (some 101))]

theorem leaderFirst_crashes : ((run shellStep (pairListed .running .running) leaderFirst).map
    fun last => decide (last.control = .crashed)) = some true := by decide

theorem handler_conserves_fails :
    ¬ ∀ start events last, Entered start → run shellStep start events = some last →
      Always shellStep Busy start events → Conserves start events last := by
  intro claim
  obtain ⟨last, ran, crashed⟩ := Option.map_eq_some_iff.mp leaderFirst_crashes
  have conserved := claim _ leaderFirst last (pairListed_entered _ _) ran (by decide)
  exact conserved.1 (of_decide_eq_true crashed)

end Akiso.Shell
