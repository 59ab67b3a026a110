import Akiso.Shell.HandleRuns

set_option autoImplicit false

namespace Akiso.Shell

open LinkedList Transition

namespace JobMemory

def Fresh (memory : JobMemory) (address : Nat) : Prop :=
  address ≠ 0 ∧ memory.handles.value address = none

def FreshBoth (memory : JobMemory) (answers : HandleAddresses) : Prop :=
  memory.Fresh answers.current ∧ memory.Fresh answers.pending ∧ answers.current ≠ answers.pending

-- The number 0 is not given while no job is current: the loop of get_job_handle would end at NULL
-- with the counter it looks for.
def Indexed (memory : JobMemory) (arguments : List (Option (List UInt8))) (argc : Nat) : Prop :=
  handleIndex arguments argc = some 0 → memory.handles.heads .currentJob ≠ 0

def Permitted (memory : JobMemory) : JobOperation → Prop
  | .launchJob address _ _ answers =>
    address ≠ 0 ∧ memory.jobs address = none ∧ memory.FreshBoth answers
  | .doFg arguments argc _ _ answers => memory.Indexed arguments argc ∧ memory.FreshBoth answers
  | .doBg arguments argc answer => memory.Indexed arguments argc ∧ memory.Fresh answer
  | .printPendingJobs => True
  | .handleChld _ => True

variable {memory changed : JobMemory} {lists : JobList → List Nat} {list : JobList}
  {handle job : Nat} {answers : HandleAddresses}

theorem makeJobHandle_returns (fresh : memory.Fresh handle) (job : Nat) :
    ∃ changed, memory.makeJobHandle handle job = some changed := by
  obtain ⟨handles, allocated⟩ := Option.isSome_iff_exists.mp
    (memory.handles.allocate_isSome job fresh.1 fresh.2)
  exact ⟨{ memory with handles }, by simp [JobMemory.makeJobHandle, allocated]⟩

theorem Sound.listJob_returns (sound : memory.Sound lists) (live : (memory.jobs job).isSome)
    (unlisted : memory.Unlisted lists job) (fresh : memory.FreshBoth answers) :
    ∃ changed, memory.listJob job answers = some changed := by
  obtain ⟨current, pending, different⟩ := fresh
  obtain ⟨first, made⟩ := makeJobHandle_returns current job
  obtain ⟨handles, added, value, listed⟩ := sound.listCurrent live unlisted made
  obtain ⟨-, -, jobs, -, -, kept⟩ := sound.makeJobHandle made
  have pending : Fresh { first with handles } answers.pending := by
    refine ⟨pending.1, ?_⟩
    rw [value, kept _ different.symm]
    exact pending.2
  obtain ⟨second, madeAgain⟩ := makeJobHandle_returns pending job
  obtain ⟨final, addedAgain, -⟩ := listed.listPending (by rw [jobs]; exact live) madeAgain
  refine ⟨{ second with handles := final }, ?_⟩
  simp [JobMemory.listJob, made, added, madeAgain, addedAgain]

theorem Sound.waitForFgJob_returns (sound : memory.Sound lists) (live : (memory.jobs job).isSome)
    (unlisted : memory.Unlisted lists job) (fresh : memory.FreshBoth answers) (wait : WaitState)
    (reports : List Report) :
    ∃ changed, memory.waitForFgJob job answers wait reports = some changed := by
  obtain ⟨cell, present⟩ := Option.isSome_iff_exists.mp live
  induction reports generalizing wait with
  | nil => exact ⟨memory, by simp [JobMemory.waitForFgJob, present]⟩
  | cons report rest ih =>
    simp only [JobMemory.waitForFgJob, present, Option.bind_eq_bind, Option.bind_some]
    split
    next =>
      exact (sound.setJob job { cell with fg := false, stopped := true }).listJob_returns
        (by simp [JobMemory.setJob]) unlisted fresh
    next => exact ih _

theorem Sound.launchJob_returns (sound : memory.Sound lists) (live : (memory.jobs job).isSome)
    (unlisted : memory.Unlisted lists job) (fresh : memory.FreshBoth answers)
    (reports : List Report) : ∃ changed, memory.launchJob job reports answers = some changed := by
  obtain ⟨cell, present⟩ := Option.isSome_iff_exists.mp live
  simp only [JobMemory.launchJob, present, Option.bind_eq_bind, Option.bind_some]
  split
  next => exact sound.waitForFgJob_returns live unlisted fresh _ reports
  next => exact sound.listJob_returns live unlisted fresh

theorem seekHandle_eq (memory : JobMemory) (index : Int) (fuel : Nat) {pointer : Nat}
    {rest : List Nat} (chain : memory.handles.Chain pointer rest) (enough : rest.length < fuel)
    (count : Int) :
    memory.seekHandle index fuel pointer count =
      some ((Shell.seekHandle index rest count).1,
        (Shell.seekHandle index rest count).2.getD 0) := by
  induction rest generalizing fuel pointer count with
  | nil =>
    obtain rfl : pointer = 0 := chain
    cases fuel with
    | zero => simp at enough
    | succ fuel => simp [JobMemory.seekHandle, Shell.seekHandle]
  | cons handle rest ih =>
    have positive := chain.ne_zero handle (by simp)
    obtain ⟨rfl, node, found, onward⟩ := chain
    cases fuel with
    | zero => simp at enough
    | succ fuel =>
      simp only [JobMemory.seekHandle, Shell.seekHandle, positive, if_false, found,
        Option.bind_eq_bind, Option.bind_some]
      split
      next => simp
      next => exact ih fuel onward (by simpa using enough) (count + 1)

theorem seekHandle_mem {index count : Int} {handles : List Nat}
    (found : (Shell.seekHandle index handles count).2 = some handle) : handle ∈ handles := by
  induction handles generalizing count with
  | nil => simp [Shell.seekHandle] at found
  | cons first rest ih =>
    simp only [Shell.seekHandle] at found
    split at found
    next => simp [Option.some.inj found]
    next => exact List.mem_cons_of_mem _ (ih found)

theorem seekHandle_none {index count : Int} {handles : List Nat}
    (missed : (Shell.seekHandle index handles count).2 = none)
    (reached : (Shell.seekHandle index handles count).1 = index) :
    handles = [] ∧ count = index := by
  induction handles generalizing count with
  | nil => exact ⟨rfl, by simpa [Shell.seekHandle] using reached⟩
  | cons first rest ih =>
    simp only [Shell.seekHandle] at missed reached
    split at missed
    next => simp at missed
    next other =>
      rw [if_neg other] at reached
      exact absurd (ih missed reached).2 other

theorem Sound.getJobHandle_returns (sound : memory.Sound lists)
    {arguments : List (Option (List UInt8))} {argc : Nat}
    (indexed : memory.Indexed arguments argc) :
    ∃ fetched, memory.getJobHandle arguments argc = some fetched ∧ fetched ≠ .notRemoved := by
  cases number : handleIndex arguments argc with
  | none => exact ⟨.badArguments, by simp [JobMemory.getJobHandle, number], by simp⟩
  | some index =>
    have seek := memory.seekHandle_eq index (memory.handles.limit + 1)
      (sound.represents.chains .currentJob) (sound.length_le .currentJob) 0
    by_cases reached : (Shell.seekHandle index (lists .currentJob) 0).1 = index
    next =>
      cases found : (Shell.seekHandle index (lists .currentJob) 0).2 with
      | none =>
        obtain ⟨empty, rfl⟩ := seekHandle_none found reached
        have head := (sound.represents.chains .currentJob).pointer_eq
        rw [empty] at head
        exact absurd head (indexed number)
      | some handle =>
        have member := seekHandle_mem found
        obtain ⟨node, cell, nodes, -, present, behind⟩ := sound.lookup member
        have removal : ∃ taken, memory.removeJobHandle .currentJob cell.pgid = some taken ∧
            taken.1 ≠ 0 := by
          rcases sound.removeJobHandle .currentJob cell.pgid with
            ⟨-, missed⟩ | ⟨before, removed, after, handles, split, unlinked, -⟩
          · obtain ⟨removed, taken⟩ := removeJobHandle_isSome member
              (show (memory.behind handle).pgid = cell.pgid by rw [behind])
            simp [missed] at taken
          · exact ⟨_, unlinked, sound.ne_zero (by simp [split] : removed ∈ lists .currentJob)⟩
        obtain ⟨⟨removed, changed⟩, unlinked, positive⟩ := removal
        refine ⟨.handle removed changed, ?_, by simp⟩
        simp [JobMemory.getJobHandle, number, seek, reached, found, nodes, present, unlinked,
          positive]
    next =>
      exact ⟨.noSuchJob, by simp [JobMemory.getJobHandle, number, seek, reached], by simp⟩

theorem Sound.doFg_returns (sound : memory.Sound lists) {arguments : List (Option (List UInt8))}
    {argc : Nat} (terminal : Bool) (reports : List Report)
    (indexed : memory.Indexed arguments argc) (fresh : memory.FreshBoth answers) :
    ∃ changed, memory.doFg arguments argc terminal reports answers = some changed := by
  obtain ⟨fetched, got, removed⟩ := sound.getJobHandle_returns indexed
  cases fetched with
  | badArguments => exact ⟨memory, by simp [JobMemory.doFg, got]⟩
  | noSuchJob => exact ⟨memory, by simp [JobMemory.doFg, got]⟩
  | notRemoved => exact absurd rfl removed
  | handle handle taken =>
    obtain ⟨value, -, live, rest, safe, loose, unlisted⟩ := sound.getJobHandle got
    obtain ⟨node, found, -⟩ := loose.ended
    have job := jobOf_of_nodes found
    obtain ⟨cell, present⟩ := Option.isSome_iff_exists.mp (job ▸ live)
    cases terminal with
    | false =>
      obtain ⟨handles, added, -⟩ := safe.addLast .currentJob loose live fun _ => unlisted
      exact ⟨{ taken with handles }, by simp [JobMemory.doFg, got, found, present, added]⟩
    | true =>
      have resumed := safe.setJob node.value { cell with stopped := false, fg := true }
      have fresh : FreshBoth (taken.setJob node.value { cell with stopped := false, fg := true })
          answers := by
        simpa [FreshBoth, Fresh, JobMemory.setJob, value] using fresh
      obtain ⟨waited, launched⟩ := resumed.launchJob_returns (by simp [JobMemory.setJob])
        (job ▸ unlisted) fresh reports
      obtain ⟨after, waitedSafe, grows⟩ := resumed.launchJob (job ▸ unlisted) launched
      obtain ⟨handles, released, -⟩ := waitedSafe.freeTaken grows loose
      refine ⟨{ waited with handles }, ?_⟩
      simp [JobMemory.doFg, got, found, present, launched, released]

theorem Sound.doBg_returns (sound : memory.Sound lists) {arguments : List (Option (List UInt8))}
    {argc answer : Nat} (indexed : memory.Indexed arguments argc) (fresh : memory.Fresh answer) :
    ∃ changed, memory.doBg arguments argc answer = some changed := by
  obtain ⟨fetched, got, removed⟩ := sound.getJobHandle_returns indexed
  cases fetched with
  | badArguments => exact ⟨memory, by simp [JobMemory.doBg, got]⟩
  | noSuchJob => exact ⟨memory, by simp [JobMemory.doBg, got]⟩
  | notRemoved => exact absurd rfl removed
  | handle handle taken =>
    obtain ⟨value, -, live, rest, safe, loose, unlisted⟩ := sound.getJobHandle got
    obtain ⟨node, found, -⟩ := loose.ended
    have job := jobOf_of_nodes found
    obtain ⟨cell, present⟩ := Option.isSome_iff_exists.mp (job ▸ live)
    obtain ⟨handles, added, kept, listed⟩ :=
      safe.resume loose job unlisted { cell with stopped := false }
    have fresh : Fresh
        { taken.setJob node.value { cell with stopped := false } with handles } answer := by
      simpa [Fresh, JobMemory.setJob, kept, value] using fresh
    obtain ⟨announced, made⟩ := makeJobHandle_returns fresh node.value
    obtain ⟨final, addedLast, -⟩ := listed.listPending (by simp [JobMemory.setJob]) made
    refine ⟨{ announced with handles := final }, ?_⟩
    simp [JobMemory.doBg, got, found, present, added, made, addedLast]

theorem Sound.operate_returns (sound : memory.Sound lists) (operation : JobOperation)
    (permitted : memory.Permitted operation) :
    ∃ changed, memory.operate operation = some changed := by
  cases operation with
  | launchJob address job reports answers =>
    obtain ⟨positive, free, fresh⟩ := permitted
    have allocated := sound.setJob address job
    obtain ⟨changed, launched⟩ := allocated.launchJob_returns (by simp [JobMemory.setJob])
      (sound.unlisted_of_free free) fresh reports
    exact ⟨changed, by simp [JobMemory.operate, positive, free, launched]⟩
  | doFg arguments argc terminal reports answers =>
    exact sound.doFg_returns terminal reports permitted.1 permitted.2
  | doBg arguments argc answer => exact sound.doBg_returns permitted.1 permitted.2
  | printPendingJobs =>
    obtain ⟨changed, -, printed, -⟩ := sound.printPendingJobs
    exact ⟨changed, printed⟩
  | handleChld reports =>
    obtain ⟨changed, -, visited, -⟩ := sound.handleChld reports
    exact ⟨changed, visited⟩

theorem run_returns (sound : memory.Sound lists) (operations : List JobOperation)
    (permitted : Always operate Permitted memory operations) :
    ∃ changed, run operate memory operations = some changed := by
  induction operations generalizing memory lists with
  | nil => exact ⟨memory, rfl⟩
  | cons operation rest ih =>
    obtain ⟨next, taken⟩ := sound.operate_returns operation permitted.1
    obtain ⟨after, safe⟩ := sound.operate operation taken
    obtain ⟨changed, ran⟩ := ih safe (permitted.2 next taken)
    exact ⟨changed, by simp [run, taken, ran]⟩

end JobMemory

end Akiso.Shell
