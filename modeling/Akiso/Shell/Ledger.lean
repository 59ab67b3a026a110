import Akiso.Shell.JobControl

set_option autoImplicit false

namespace Akiso.Shell

-- One pid, one process: what the kernel keeps true of its table.
def DistinctPids (children : List Child) : Prop :=
  children.Pairwise fun child other => child.pid ≠ other.pid

def membersOf (job : JobId) (children : List Child) : Nat :=
  children.countP fun child => child.job = job

theorem members_eq (state : ShellState) (job : JobId) :
    state.members job = membersOf job state.children := rfl

theorem mem_setStatus {pid : Nat} {status : ChildStatus} {children : List Child} {child : Child}
    (member : child ∈ setStatus pid status children) :
    ∃ old ∈ children, old.pid = child.pid ∧ old.pgid = child.pgid ∧ old.job = child.job := by
  obtain ⟨old, present, changed⟩ := List.mem_map.mp member
  refine ⟨old, present, ?_⟩
  subst changed
  split <;> simp

theorem distinctPids_setStatus {pid : Nat} {status : ChildStatus} {children : List Child}
    (distinct : DistinctPids children) : DistinctPids (setStatus pid status children) := by
  refine List.pairwise_map.mpr (distinct.imp fun {child other} different => ?_)
  have same : ∀ child : Child, (if child.pid = pid then { child with status } else child).pid =
      child.pid := by
    intro child
    split <;> rfl
  simpa [same] using different

theorem membersOf_setStatus (job : JobId) (pid : Nat) (status : ChildStatus)
    (children : List Child) :
    membersOf job (setStatus pid status children) = membersOf job children := by
  unfold membersOf setStatus
  rw [List.countP_map]
  congr 1
  funext child
  dsimp only [Function.comp]
  split <;> rfl

theorem distinctPids_reapChild {pid : Nat} {children : List Child}
    (distinct : DistinctPids children) : DistinctPids (reapChild pid children) :=
  distinct.filter _

theorem reapChild_missing {pid : Nat} {children : List Child}
    (missing : ∀ child ∈ children, child.pid ≠ pid) : reapChild pid children = children := by
  simpa [reapChild] using missing

theorem membersOf_reapChild {children : List Child} {child : Child} (job : JobId)
    (distinct : DistinctPids children) (present : child ∈ children) :
    membersOf job (reapChild child.pid children) + (if child.job = job then 1 else 0) =
      membersOf job children := by
  induction children with
  | nil => simp at present
  | cons head rest ih =>
    obtain ⟨apart, distinct⟩ := List.pairwise_cons.mp distinct
    rcases List.mem_cons.mp present with same | later
    · subst same
      have kept := reapChild_missing fun other member => (apart other member).symm
      have reaped : reapChild child.pid (child :: rest) = rest := by
        simpa [reapChild] using kept
      simp [reaped, membersOf, List.countP_cons]
    · have kept : reapChild child.pid (head :: rest) = head :: reapChild child.pid rest := by
        simp [reapChild, apart child later]
      have tail := ih distinct later
      simp only [kept, membersOf, List.countP_cons] at tail ⊢
      omega

theorem waitpid_cases {matching : Child → Bool} {untraced : Bool} {pid : Nat}
    {children : List Child} {outcome : Report × List Child}
    (returned : waitpid matching untraced pid children = some outcome) :
    ∃ child ∈ children, child.pid = pid ∧ matching child = true ∧
      (child.status = .zombie ∧ outcome = (.ended, reapChild pid children) ∨
        child.status = .stopped false ∧ untraced = true ∧
          outcome = (.stopped, setStatus pid (.stopped true) children)) := by
  unfold waitpid at returned
  split at returned
  next => simp at returned
  next child found =>
    have matched := List.find?_some found
    simp only [Bool.and_eq_true, decide_eq_true_eq] at matched
    refine ⟨child, List.mem_of_find?_eq_some found, matched.1, matched.2, ?_⟩
    split at returned
    next zombie => exact Or.inl ⟨zombie, by simpa using returned.symm⟩
    next =>
      split at returned
      next stopped =>
        simp only [Bool.and_eq_true, decide_eq_true_eq] at stopped
        exact Or.inr ⟨stopped.2, stopped.1, by simpa using returned.symm⟩
      next => simp at returned

theorem waitpid_some {matching : Child → Bool} {untraced : Bool} {pid : Nat}
    {children : List Child} {outcome : Report × List Child}
    (returned : waitpid matching untraced pid children = some outcome) :
    ∃ child ∈ children, child.pid = pid ∧ matching child = true ∧
      (outcome = (.ended, reapChild pid children) ∨
        untraced = true ∧ outcome = (.stopped, setStatus pid (.stopped true) children)) := by
  obtain ⟨child, present, same, matched, report⟩ := waitpid_cases returned
  exact ⟨child, present, same, matched, report.imp And.right And.right⟩

structure Ledger (children : List Child) (jobs : JobId → Job) (nextJob : JobId)
    (owned : List JobId) : Prop where
  pids : DistinctPids children
  known : ∀ child ∈ children, child.job < nextJob
  allocated : ∀ job ∈ owned, job < nextJob
  nodup : owned.Nodup
  groups : ∀ job ∈ owned, ∀ child ∈ children, child.pgid = (jobs job).pgid ↔ child.job = job
  separate : ∀ job ∈ owned, ∀ other ∈ owned, (jobs job).pgid = (jobs other).pgid → job = other
  positive : ∀ job ∈ owned, 0 < (jobs job).pgid

namespace Ledger

variable {children : List Child} {jobs : JobId → Job} {nextJob : JobId} {owned : List JobId}

theorem restrict (ledger : Ledger children jobs nextJob owned) {fewer : List JobId}
    (subset : fewer ⊆ owned) (nodup : fewer.Nodup) : Ledger children jobs nextJob fewer where
  pids := ledger.pids
  known := ledger.known
  allocated job member := ledger.allocated job (subset member)
  nodup := nodup
  groups job member := ledger.groups job (subset member)
  separate job member other otherMember :=
    ledger.separate job (subset member) other (subset otherMember)
  positive job member := ledger.positive job (subset member)

theorem perm (ledger : Ledger children jobs nextJob owned) {same : List JobId}
    (permuted : same.Perm owned) : Ledger children jobs nextJob same :=
  ledger.restrict permuted.subset (permuted.nodup_iff.mpr ledger.nodup)

theorem relabel (ledger : Ledger children jobs nextJob owned) {changed : JobId → Job}
    (pgids : ∀ job ∈ owned, (changed job).pgid = (jobs job).pgid) :
    Ledger children changed nextJob owned where
  pids := ledger.pids
  known := ledger.known
  allocated := ledger.allocated
  nodup := ledger.nodup
  groups job member := by
    rw [pgids job member]
    exact ledger.groups job member
  separate job member other otherMember := by
    rw [pgids job member, pgids other otherMember]
    exact ledger.separate job member other otherMember
  positive job member := by
    rw [pgids job member]
    exact ledger.positive job member

theorem setStatus (ledger : Ledger children jobs nextJob owned) (pid : Nat)
    (status : ChildStatus) :
    Ledger (Shell.setStatus pid status children) jobs nextJob owned where
  pids := distinctPids_setStatus ledger.pids
  known child member := by
    obtain ⟨old, present, _, _, job⟩ := mem_setStatus member
    exact job ▸ ledger.known old present
  allocated := ledger.allocated
  nodup := ledger.nodup
  groups job owner child member := by
    obtain ⟨old, present, _, pgid, oldJob⟩ := mem_setStatus member
    rw [← pgid, ← oldJob]
    exact ledger.groups job owner old present
  separate := ledger.separate
  positive := ledger.positive

theorem reapChild (ledger : Ledger children jobs nextJob owned) (pid : Nat) :
    Ledger (Shell.reapChild pid children) jobs nextJob owned where
  pids := distinctPids_reapChild ledger.pids
  known child member := ledger.known child (List.mem_of_mem_filter member)
  allocated := ledger.allocated
  nodup := ledger.nodup
  groups job owner child member := ledger.groups job owner child (List.mem_of_mem_filter member)
  separate := ledger.separate
  positive := ledger.positive

theorem grow (ledger : Ledger children jobs nextJob owned) :
    Ledger children jobs (nextJob + 1) owned where
  pids := ledger.pids
  known child member := Nat.lt_succ_of_lt (ledger.known child member)
  allocated job member := Nat.lt_succ_of_lt (ledger.allocated job member)
  nodup := ledger.nodup
  groups := ledger.groups
  separate := ledger.separate
  positive := ledger.positive

theorem adopt (ledger : Ledger children jobs nextJob owned) {job : JobId} {pid : Nat}
    (fresh : freshPid pid children) (unowned : job ∉ owned) (allocated : job < nextJob)
    (childless : ∀ child ∈ children, child.job ≠ job)
    (populated : ∀ other ∈ owned, ∃ child ∈ children, child.job = other) :
    Ledger children (Function.update jobs job { jobs job with pgid := pid }) nextJob
      (job :: owned) := by
  have others : ∀ other ∈ owned,
      Function.update jobs job { jobs job with pgid := pid } other = jobs other := by
    intro other member
    have different : other ≠ job := fun same => unowned (same ▸ member)
    exact Function.update_of_ne different _ _
  have apart : ∀ other ∈ owned, (jobs other).pgid ≠ pid := by
    intro other member same
    obtain ⟨child, present, belongs⟩ := populated other member
    have group := (ledger.groups other member child present).mpr belongs
    exact (fresh.2 child present).2 (group.trans same)
  constructor
  next => exact ledger.pids
  next => exact ledger.known
  next =>
    intro other member
    rcases List.mem_cons.mp member with rfl | member
    · exact allocated
    · exact ledger.allocated other member
  next => exact List.nodup_cons.mpr ⟨unowned, ledger.nodup⟩
  next =>
    intro other member child present
    rcases List.mem_cons.mp member with rfl | member
    · simpa [(fresh.2 child present).2] using childless child present
    · rw [others other member]
      exact ledger.groups other member child present
  next =>
    intro one oneMember two twoMember same
    rcases List.mem_cons.mp oneMember with rfl | oneOld
    · rcases List.mem_cons.mp twoMember with rfl | twoOld
      · rfl
      · rw [others two twoOld, Function.update_self] at same
        exact absurd same.symm (apart two twoOld)
    · rcases List.mem_cons.mp twoMember with rfl | twoOld
      · rw [others one oneOld, Function.update_self] at same
        exact absurd same (apart one oneOld)
      · rw [others one oneOld, others two twoOld] at same
        exact ledger.separate one oneOld two twoOld same
  next =>
    intro other member
    rcases List.mem_cons.mp member with rfl | member
    · simpa using Nat.lt_trans Nat.zero_lt_one fresh.1
    · rw [others other member]
      exact ledger.positive other member

theorem fork (ledger : Ledger children jobs nextJob owned) {job : JobId} {pid : Nat}
    (fresh : freshPid pid children) (owner : job ∈ owned) (status : ChildStatus) :
    Ledger (children ++ [{ pid, pgid := (jobs job).pgid, job, status }]) jobs nextJob owned where
  pids := by
    refine List.pairwise_append.mpr ⟨ledger.pids, List.pairwise_singleton _ _, ?_⟩
    intro child present other same
    simp only [List.mem_singleton] at same
    subst same
    exact (fresh.2 child present).1
  known child present := by
    rcases List.mem_append.mp present with old | same
    · exact ledger.known child old
    · simp only [List.mem_singleton] at same
      subst same
      exact ledger.allocated job owner
  allocated := ledger.allocated
  nodup := ledger.nodup
  groups other member child present := by
    rcases List.mem_append.mp present with old | same
    · exact ledger.groups other member child old
    · simp only [List.mem_singleton] at same
      subst same
      constructor
      next => exact fun group => ledger.separate job owner other member group
      next => rintro rfl; rfl
  separate := ledger.separate
  positive := ledger.positive

end Ledger

theorem membersOf_append (job : JobId) (children : List Child) (child : Child) :
    membersOf job (children ++ [child]) =
      membersOf job children + if child.job = job then 1 else 0 := by
  simp [membersOf, List.countP_append, List.countP_cons]

theorem membersOf_pos {job : JobId} {children : List Child} :
    0 < membersOf job children ↔ ∃ child ∈ children, child.job = job := by
  simp [membersOf, List.countP_pos_iff]

theorem membersOf_eq_zero {job : JobId} {children : List Child} :
    membersOf job children = 0 ↔ ∀ child ∈ children, child.job ≠ job := by
  simp [membersOf, List.countP_eq_zero]

end Akiso.Shell
