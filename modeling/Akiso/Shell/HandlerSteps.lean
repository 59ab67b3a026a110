import Akiso.Shell.Consistency

set_option autoImplicit false

namespace Akiso.Shell

namespace Consistent

variable {state next : ShellState}

theorem poll_ended (consistent : Consistent state) {job : JobId} {rest : List JobId}
    {child : Child} (visiting : state.handler = .visiting (job :: rest))
    (present : child ∈ state.children) (member : child.job = job) :
    Consistent
      { (state.use [job]).setJob job ((state.jobs job).absorb .ended) with
        children := reapChild child.pid state.children } := by
  have listed : job ∈ state.currentJob :=
    (consistent.visits _ visiting).2 List.mem_cons_self
  have reaped : membersOf job (reapChild child.pid state.children) + 1 =
      membersOf job state.children := by
    simpa [member] using membersOf_reapChild job consistent.ledger.pids present
  have others : ∀ other, other ≠ job →
      membersOf other (reapChild child.pid state.children) = membersOf other state.children := by
    intro other different
    have count := membersOf_reapChild other consistent.ledger.pids present
    rw [member, if_neg different.symm] at count
    exact count
  have old := consistent.counted job listed
  have size : sizeDecrement (state.jobs job).pipelineSize =
      membersOf job (reapChild child.pid state.children) := by
    rw [old.exact, members_eq, ← reaped]
    have bounded := old.bounded
    rw [old.exact, members_eq, ← reaped] at bounded
    exact sizeDecrement_succ (by unfold buffSize at bounded; omega)
  constructor
  next =>
    refine (consistent.ledger.reapChild child.pid).relabel fun other _ => ?_
    by_cases same : other = job
    next => subst same; simp [ShellState.setJob, ShellState.use, Job.absorb]
    next => simp [ShellState.setJob, ShellState.use, same]
  next =>
    intro other otherListed
    by_cases same : other = job
    next =>
      subst same
      constructor
      next => simpa [ShellState.setJob, ShellState.use, Job.absorb, members_eq] using size
      next =>
        have bounded := old.bounded
        rw [old.exact, members_eq] at bounded
        simp only [ShellState.setJob, Job.absorb, Function.update_self, size]
        omega
    next =>
      simp only [ShellState.setJob, ShellState.use, Function.update_of_ne same, members_eq,
        others other same]
      exact consistent.counted other otherListed
  next =>
    intro other otherListed elsewhere
    have different : other ≠ job := by
      intro same
      subst same
      simp [ShellState.setJob, ShellState.use, visiting, Handler.head] at elsewhere
    rw [members_eq]
    simp only [others other different]
    exact consistent.populated other otherListed elsewhere
  next => exact consistent.visits
  next =>
    refine consistent.held.transfer rfl rfl (List.Subset.refl _) fun heldJob held => ?_
    have different : heldJob ≠ job := by
      intro same
      exact consistent.held_unlisted held (same ▸ listed)
    refine ⟨?_, others heldJob different⟩
    simp [ShellState.setJob, ShellState.use, different]

theorem poll_stopped (consistent : Consistent state) {job : JobId} (pid : Nat) :
    Consistent
      { (state.use [job]).setJob job ((state.jobs job).absorb .stopped) with
        children := Shell.setStatus pid (.stopped true) state.children } := by
  have same := update_accounts state.jobs job ((state.jobs job).absorb .stopped) rfl rfl
  refine (consistent.setStatus pid (.stopped true)).frame rfl same rfl rfl rfl
    (List.Sublist.refl _) ?_
  exact consistent.held.transfer rfl rfl (List.Subset.refl _) fun other _ =>
    ⟨(same other).2, membersOf_setStatus other pid _ state.children⟩

theorem remove_listed (consistent : Consistent state) {job : JobId}
    (listed : job ∈ state.currentJob) :
    ∃ before after, state.currentJob = before ++ job :: after ∧
      removeJobHandle state.jobs (state.jobs job).pgid state.currentJob =
        (some job, before ++ after) := by
  have ledger := consistent.ledger
  apply removeJobHandle_listed _ listed
  · exact ledger.positive job (listed_owned listed)
  · intro one member other otherMember
    exact ledger.separate one (listed_owned member) other (listed_owned otherMember)

theorem leaveHandle_kept (consistent : Consistent state) {job : JobId} {rest : List JobId}
    (visiting : state.handler = .visiting (job :: rest))
    (nonzero : ¬ sizeIsZero (state.jobs job).pipelineSize) :
    Consistent { state.use [job] with handler := .visiting rest } where
  ledger := consistent.ledger
  counted := consistent.counted
  populated other listed _ := by
    by_cases same : other = job
    next =>
      subst same
      have size := (consistent.counted other listed).exact
      have zero : state.members other ≠ 0 := by
        intro none
        rw [size, none] at nonzero
        exact nonzero rfl
      exact Nat.pos_of_ne_zero zero
    next =>
      refine consistent.populated other listed ?_
      simpa [visiting, Handler.head] using Ne.symm same
  visits handles here := by
    simp only [Handler.visiting.injEq] at here
    obtain ⟨nodup, subset⟩ := consistent.visits _ visiting
    subst here
    exact ⟨(List.nodup_cons.mp nodup).2, fun other member =>
      subset (List.mem_cons_of_mem _ member)⟩
  held := consistent.held.transfer rfl rfl (List.Subset.refl _) fun _ _ => ⟨rfl, rfl⟩

theorem unlist (consistent : Consistent state) {job : JobId} {before after : List JobId}
    (split : state.currentJob = before ++ job :: after) :
    Ledger state.children state.jobs state.nextJob
      (state.control.grouped.toList ++ (before ++ after)) := by
  have permuted : (state.control.grouped.toList ++ (before ++ after)).Sublist state.owned := by
    rw [ShellState.owned, split]
    refine List.Sublist.append_left ?_ _
    exact List.Sublist.append_left (List.sublist_cons_self _ _) _
  exact consistent.ledger.restrict permuted.subset (permuted.nodup consistent.ledger.nodup)

theorem leaveHandle_removed (consistent : Consistent state) {job : JobId}
    {rest before after : List JobId} (visiting : state.handler = .visiting (job :: rest))
    (split : state.currentJob = before ++ job :: after)
    (removedJobs : List JobId) (accesses : List Access) :
    Consistent { state with
      currentJob := before ++ after, pendingRemovedJobs := removedJobs, accesses
      handler := .visiting rest } where
  ledger := consistent.unlist split
  counted other listed := by
    refine consistent.counted other ?_
    rw [split]
    exact List.mem_append.mpr ((List.mem_append.mp listed).imp_right (List.mem_cons_of_mem _))
  populated other listed _ := by
    have nodup := consistent.nodup
    rw [split] at nodup
    have absent : job ∉ before ++ after :=
      (List.nodup_cons.mp (List.perm_middle.nodup_iff.mp nodup)).1
    refine consistent.populated other ?_ ?_
    next =>
      rw [split]
      exact List.mem_append.mpr ((List.mem_append.mp listed).imp_right (List.mem_cons_of_mem _))
    next =>
      simp only [visiting, Handler.head, ne_eq, Option.some.injEq]
      intro same
      exact absent (same ▸ listed)
  visits handles here := by
    simp only [Handler.visiting.injEq] at here
    subst here
    obtain ⟨nodup, subset⟩ := consistent.visits _ visiting
    obtain ⟨absent, nodup⟩ := List.nodup_cons.mp nodup
    refine ⟨nodup, fun other member => ?_⟩
    have listed := subset (List.mem_cons_of_mem job member)
    rw [split] at listed
    rcases List.mem_append.mp listed with early | late
    · exact List.mem_append_left _ early
    · rcases List.mem_cons.mp late with same | late
      · exact absurd (same ▸ member) absent
      · exact List.mem_append_right _ late
  held := by
    refine consistent.held.transfer rfl rfl ?_ fun _ _ => ⟨rfl, rfl⟩
    rw [split]
    intro other listed
    exact List.mem_append.mpr ((List.mem_append.mp listed).imp_right (List.mem_cons_of_mem _))

theorem leaveHandle_eq (consistent : Consistent state) {job : JobId} {rest : List JobId}
    (visiting : state.handler = .visiting (job :: rest))
    (zero : sizeIsZero (state.jobs job).pipelineSize) :
    ∃ before after accesses, state.currentJob = before ++ job :: after ∧
      leaveHandle state job rest =
        { state with
          currentJob := before ++ after
          pendingRemovedJobs := state.pendingRemovedJobs ++ [job]
          accesses
          handler := .visiting rest } := by
  have listed := (consistent.visits _ visiting).2 (List.mem_cons_self (a := job) (l := rest))
  obtain ⟨before, after, split, removed⟩ := consistent.remove_listed listed
  exact ⟨before, after, _, split, by simp [leaveHandle, zero, removed, ShellState.use]; rfl⟩

theorem leaveHandle (consistent : Consistent state) {job : JobId} {rest : List JobId}
    (visiting : state.handler = .visiting (job :: rest)) :
    Consistent (Shell.leaveHandle state job rest) := by
  by_cases zero : sizeIsZero (state.jobs job).pipelineSize
  next =>
    obtain ⟨before, after, accesses, split, left⟩ := consistent.leaveHandle_eq visiting zero
    rw [left]
    exact consistent.leaveHandle_removed visiting split _ _
  next =>
    simp only [Shell.leaveHandle, zero, if_false]
    exact consistent.leaveHandle_kept visiting zero

theorem reap_apart (consistent : Consistent state) {child : Child} {fewer : List JobId}
    (present : child ∈ state.children) (sublist : fewer.Sublist state.currentJob)
    (unlisted : child.job ∉ fewer) (unheld : state.control.held ≠ some child.job)
    (visited : ∀ handles, state.handler = .visiting handles → handles = [])
    (removedJobs : List JobId) (accesses : List Access) :
    Consistent { state with
      children := reapChild child.pid state.children, currentJob := fewer
      pendingRemovedJobs := removedJobs, accesses } := by
  have others : ∀ other, other ≠ child.job →
      membersOf other (reapChild child.pid state.children) = membersOf other state.children := by
    intro other different
    have count := membersOf_reapChild other consistent.ledger.pids present
    rw [if_neg different.symm] at count
    exact count
  have kept : ∀ job ∈ fewer, membersOf job (reapChild child.pid state.children) =
      membersOf job state.children := by
    intro job listed
    exact others job fun same => unlisted (same ▸ listed)
  have owned : (state.control.grouped.toList ++ fewer).Sublist state.owned :=
    List.Sublist.append_left sublist _
  constructor
  next =>
    have ledger := consistent.ledger.restrict owned.subset (owned.nodup consistent.ledger.nodup)
    exact ledger.reapChild child.pid
  next =>
    intro job listed
    rw [members_eq]
    simp only [kept job listed]
    exact consistent.counted job (sublist.subset listed)
  next =>
    intro job listed _
    rw [members_eq]
    simp only [kept job listed]
    refine consistent.populated job (sublist.subset listed) ?_
    intro head
    unfold Handler.head at head
    split at head
    next here => simpa using visited _ here
    next => simp at head
  next =>
    intro handles here
    have none := visited handles here
    subst none
    exact ⟨List.nodup_nil, List.nil_subset _⟩
  next =>
    refine consistent.held.transfer rfl rfl sublist.subset fun job held => ⟨rfl, ?_⟩
    refine others job fun same => ?_
    rw [same] at held
    exact unheld held

theorem startVisits (consistent : Consistent state) (idle : state.handler = .idle) :
    Consistent { state with handler := .visiting state.currentJob } where
  ledger := consistent.ledger
  counted := consistent.counted
  populated job listed _ := consistent.populated job listed (by simp [idle, Handler.head])
  visits handles here := by
    simp only [Handler.visiting.injEq] at here
    subst here
    exact ⟨consistent.nodup, List.Subset.refl _⟩
  held := consistent.held.transfer rfl rfl (List.Subset.refl _) fun _ _ => ⟨rfl, rfl⟩

theorem finishSweep (consistent : Consistent state) (sweeping : state.handler = .visiting []) :
    Consistent { state with handler := .idle } where
  ledger := consistent.ledger
  counted := consistent.counted
  populated job listed _ := consistent.populated job listed (by simp [sweeping, Handler.head])
  visits handles here := by simp at here
  held := consistent.held.transfer rfl rfl (List.Subset.refl _) fun _ _ => ⟨rfl, rfl⟩

theorem sweepChild (consistent : Consistent state) {child : Child}
    (present : child ∈ state.children) (sweeping : state.handler = .visiting [])
    (unheld : state.control.held ≠ some child.job)
    (unlisted : child.job ∉ (removeJobHandle state.jobs child.pid state.currentJob).2) :
    Consistent (Shell.sweepChild
      { state with children := reapChild child.pid state.children } child.pid) := by
  have reaped := consistent.reap_apart present
    (removeJobHandle_sublist state.jobs child.pid state.currentJob) unlisted unheld
    (fun handles here => by rw [sweeping] at here; simpa using here.symm)
  unfold Shell.sweepChild
  dsimp only
  split
  next => exact reaped _ _
  next refused =>
    have missing : (removeJobHandle state.jobs child.pid state.currentJob).1 = none := by
      unfold addFirst at refused
      split at refused <;> simp_all
    have same := removeJobHandle_none missing
    rw [same] at reaped
    have quiet := (reaped state.pendingRemovedJobs state.accesses).finishSweep sweeping
    exact quiet.release rfl rfl rfl rfl rfl rfl (by simp [ShellState.crash])

theorem handlerStep (consistent : Consistent state) {event : HandlerEvent}
    (attributed : AttributedSweep state (.handler event))
    (taken : Shell.handlerStep state event = some next) : Consistent next := by
  unfold Shell.handlerStep at taken
  split at taken
  next =>
    split at taken
    next ready =>
      cases taken
      exact consistent.startVisits ready.1
    next => simp at taken
  next pid =>
    split at taken
    next job rest visiting =>
      obtain ⟨outcome, returned, rfl⟩ := Option.map_eq_some_iff.mp taken
      obtain ⟨child, present, rfl, matched, report⟩ := waitpid_some returned
      have listed := (consistent.visits _ visiting).2 (List.mem_cons_self (a := job) (l := rest))
      have member := consistent.member_of_group (listed_owned listed) present matched
      rcases report with rfl | ⟨_, rfl⟩
      · exact consistent.poll_ended visiting present member
      · exact consistent.poll_stopped child.pid
    next => simp at taken
  next =>
    split at taken
    next job rest visiting =>
      split at taken
      next =>
        cases taken
        exact consistent.leaveHandle visiting
      next => simp at taken
    next => simp at taken
  next pid =>
    split at taken
    next visiting =>
      obtain ⟨outcome, returned, rfl⟩ := Option.map_eq_some_iff.mp taken
      obtain ⟨child, present, rfl, _, report⟩ := waitpid_some returned
      obtain ⟨unheld, unlisted⟩ := attributed child present rfl
      rcases report with rfl | ⟨untraced, _⟩
      · exact consistent.sweepChild present visiting unheld unlisted
      · simp at untraced
    next => simp at taken
  next =>
    split at taken
    next visiting =>
      split at taken
      next =>
        cases taken
        exact consistent.finishSweep visiting
      next => simp at taken
    next => simp at taken

end Consistent

end Akiso.Shell
