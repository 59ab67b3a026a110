import Akiso.Shared.Transition
import Akiso.Shell.HandleLists

set_option autoImplicit false

namespace Akiso.Shell

open LinkedList Transition

namespace JobMemory

variable {memory changed : JobMemory} {lists : JobList → List Nat} {list : JobList}
  {handle job : Nat}

theorem Sound.removeAny (sound : memory.Sound lists) (list : JobList) :
    (lists list = [] ∧ memory.removeJobHandle list 0 = some (0, memory)) ∨
      ∃ handle rest handles, lists list = handle :: rest ∧ handle ≠ 0 ∧
        memory.removeJobHandle list 0 = some (handle, { memory with handles }) ∧
        handles.value = memory.handles.value ∧
        handles.Represents (Function.update lists list rest) ∧
        handles.Loose (Function.update lists list rest) handle := by
  rcases sound.removeJobHandle list 0 with
    ⟨kept, none⟩ | ⟨before, handle, after, handles, split, removed, value, represents, loose, taken⟩
  · refine .inl ⟨?_, kept⟩
    cases listed : lists list with
    | nil => rfl
    | cons first rest => simp [listed, Shell.removeJobHandle] at none
  · have positive := sound.ne_zero (by simp [split] : handle ∈ lists list)
    cases listed : lists list with
    | nil => simp [listed] at split
    | cons first rest =>
      obtain ⟨rfl, same⟩ : first = handle ∧ rest = before ++ after := by
        simpa [listed, Shell.removeJobHandle] using taken
      rw [← same] at represents loose
      exact .inr ⟨first, rest, handles, rfl, positive, removed, value, represents, loose⟩

theorem Sound.printPending (fuel : Nat) (sound : memory.Sound lists)
    (enough : (lists .pendingJobs).length < fuel) :
    ∃ changed after, memory.printPending fuel = some changed ∧ changed.Sound after ∧
      after .pendingJobs = [] := by
  induction fuel generalizing memory lists with
  | zero => omega
  | succ fuel ih =>
    rcases sound.removeAny .pendingJobs with
      ⟨empty, kept⟩ | ⟨handle, rest, handles, split, positive, removed, value, represents, loose⟩
    · exact ⟨memory, lists, by simp [JobMemory.printPending, kept], sound, empty⟩
    · have first : lists .pendingJobs = [] ++ handle :: rest := split
      obtain ⟨safe, live, -⟩ := sound.take first value represents
      obtain ⟨node, found, -⟩ := loose.ended
      have job : memory.jobOf handle = node.value := by
        have same : jobOf { memory with handles } = memory.jobOf := jobOf_congr value
        exact same ▸ jobOf_of_nodes found
      obtain ⟨cell, present⟩ := Option.isSome_iff_exists.mp (job ▸ live)
      obtain ⟨changed, after, ran, relisted, none⟩ := ih safe (by
        rw [split] at enough
        simpa using enough)
      refine ⟨changed, after, ?_, relisted, none⟩
      simp [JobMemory.printPending, removed, positive, found, present, ran]

theorem Sound.destroyJob (sound : memory.Sound lists) (live : (memory.jobs job).isSome)
    (unlisted : memory.Unlisted lists job) (silent : lists .pendingJobs = []) :
    ∃ changed, memory.destroyJob job = some changed ∧ changed.Sound lists ∧
      changed.handles = memory.handles := by
  obtain ⟨cell, present⟩ := Option.isSome_iff_exists.mp live
  refine ⟨{ memory with jobs := Function.update memory.jobs job none },
    by simp [JobMemory.destroyJob, present],
    sound.frame sound.represents (fun _ _ _ => rfl) fun name handle member kept => ?_, rfl⟩
  have different : memory.jobOf handle ≠ job := by
    rintro rfl
    cases name with
    | currentJob => exact unlisted (List.mem_map_of_mem (List.mem_append_left _ member))
    | pendingJobs => simp [silent] at member
    | pendingRemovedJobs => exact unlisted (List.mem_map_of_mem (List.mem_append_right _ member))
  simpa [Function.update_of_ne different] using kept

theorem Sound.printRemoved (fuel : Nat) (sound : memory.Sound lists)
    (silent : lists .pendingJobs = []) (enough : (lists .pendingRemovedJobs).length < fuel) :
    ∃ changed after, memory.printRemoved fuel = some changed ∧ changed.Sound after := by
  induction fuel generalizing memory lists with
  | zero => omega
  | succ fuel ih =>
    rcases sound.removeAny .pendingRemovedJobs with
      ⟨empty, kept⟩ | ⟨handle, rest, handles, split, positive, removed, value, represents, loose⟩
    · exact ⟨memory, lists, by simp [JobMemory.printRemoved, kept], sound⟩
    · have first : lists .pendingRemovedJobs = [] ++ handle :: rest := split
      obtain ⟨safe, live, unlisted⟩ := sound.take first value represents
      obtain ⟨node, found, -⟩ := loose.ended
      have job : memory.jobOf handle = node.value := by
        have same : jobOf { memory with handles } = memory.jobOf := jobOf_congr value
        exact same ▸ jobOf_of_nodes found
      rw [job] at live unlisted
      obtain ⟨cell, present⟩ := Option.isSome_iff_exists.mp live
      obtain ⟨freed, destroyed, apart, same⟩ := safe.destroyJob live (unlisted (by simp))
        (by simpa using silent)
      obtain ⟨left, released, final⟩ := apart.freeHandle loose.outside
        (by simp [same, Memory.value, found])
      obtain ⟨changed, after, ran, relisted⟩ := ih final (by simpa using silent) (by
        rw [split] at enough
        simpa using enough)
      refine ⟨changed, after, ?_, relisted⟩
      simp [JobMemory.printRemoved, removed, positive, found, present, destroyed, released, ran]

theorem Sound.length_le (sound : memory.Sound lists) (list : JobList) :
    (lists list).length < memory.handles.limit + 1 :=
  Nat.lt_succ_of_le ((sound.represents.chains list).length_le (sound.represents.nodup list))

theorem Sound.printPendingJobs (sound : memory.Sound lists) :
    ∃ changed after, memory.printPendingJobs = some changed ∧ changed.Sound after := by
  obtain ⟨silenced, between, pending, relisted, silent⟩ :=
    sound.printPending (memory.handles.limit + 1) (sound.length_le .pendingJobs)
  obtain ⟨changed, after, removed, final⟩ :=
    relisted.printRemoved (silenced.handles.limit + 1) silent (relisted.length_le _)
  exact ⟨changed, after, by simp [JobMemory.printPendingJobs, pending, removed], final⟩

-- kept is what the walk has passed; a handle it removes is not in what is left.
theorem Sound.visitHandles (fuel : Nat) (sound : memory.Sound lists) (kept rest : List Nat)
    (split : lists .currentJob = kept ++ rest) (enough : rest.length < fuel)
    (reports : List (List Report)) :
    ∃ changed after, memory.visitHandles fuel (rest.headD 0) reports = some changed ∧
      changed.Sound after := by
  induction fuel generalizing memory lists kept rest reports with
  | zero => omega
  | succ fuel ih =>
    cases rest with
    | nil => exact ⟨memory, lists, by simp [JobMemory.visitHandles], sound⟩
    | cons handle rest =>
      have member : handle ∈ lists .currentJob := by simp [split]
      have positive := sound.ne_zero member
      have fewer : rest.length < fuel := by simpa using enough
      obtain ⟨node, cell, found, job, present, -⟩ := sound.lookup member
      have onward := sound.represents.next_eq split found
      generalize absorbed : (reports.headD []).foldl Job.absorb cell = polled
      have updated := sound.setJob node.value polled
      simp only [List.headD_cons, JobMemory.visitHandles, positive, if_false, found, present,
        absorbed, onward, Option.bind_eq_bind, Option.bind_some]
      by_cases finished : sizeIsZero polled.pipelineSize
      next =>
        rcases updated.removeJobHandle .currentJob polled.pgid with
          ⟨missed, -⟩ |
            ⟨before, removed, after, handles, parts, taken, value, represents, loose, listed⟩
        · obtain ⟨changed, final, ran, relisted⟩ :=
            ih updated (kept ++ [handle]) rest (by simp [split]) fewer reports.tail
          refine ⟨changed, final, ?_, relisted⟩
          simp only [finished, if_true, missed, Option.bind_some, ran]
        · have pgid : ((memory.setJob node.value polled).behind handle).pgid = polled.pgid := by
            have same : (memory.setJob node.value polled).jobOf handle = node.value := job
            rw [behind, same]
            simp [JobMemory.setJob]
          obtain ⟨other, before', there⟩ := removeJobHandle_rest
            (memory.setJob node.value polled).behind polled.pgid kept rest pgid
          rw [← split] at there
          obtain ⟨rfl, remaining⟩ : removed = other ∧ before ++ after = before' ++ rest := by
            simpa using listed.symm.trans there
          obtain ⟨safe, live, unlisted⟩ := updated.take parts value represents
          have jobs : jobOf { memory.setJob node.value polled with handles } =
            (memory.setJob node.value polled).jobOf := jobOf_congr value
          obtain ⟨moved, added, -, relisted⟩ := safe.addLast .pendingRemovedJobs loose
            (by rw [jobs]; exact live) fun _ => by
              rw [jobs]
              exact unlisted (by simp)
          obtain ⟨changed, final, ran, last⟩ :=
            ih relisted before' rest (by simp [remaining]) fewer reports.tail
          have nonzero : removed ≠ 0 := updated.ne_zero (by simp [parts] :
            removed ∈ lists .currentJob)
          refine ⟨changed, final, ?_, last⟩
          simp only [finished, if_true, taken, nonzero, if_false, added, Option.bind_some, ran]
      next =>
        obtain ⟨changed, final, ran, relisted⟩ :=
          ih updated (kept ++ [handle]) rest (by simp [split]) fewer reports.tail
        refine ⟨changed, final, ?_, relisted⟩
        rw [if_neg finished, ran]

theorem Sound.handleChld (sound : memory.Sound lists) (reports : List (List Report)) :
    ∃ changed after, memory.handleChld reports = some changed ∧ changed.Sound after := by
  have head := (sound.represents.chains .currentJob).pointer_eq
  have walked := sound.visitHandles (memory.handles.limit + 1) [] (lists .currentJob) rfl
    (sound.length_le .currentJob) reports
  rw [← head] at walked
  exact walked

theorem initial_sound : initial.Sound fun _ => [] :=
  ⟨⟨fun _ => rfl, fun _ => List.nodup_nil, fun _ _ _ => List.disjoint_nil_left _⟩, List.nodup_nil,
    by simp⟩

theorem Sound.unlisted_of_free (sound : memory.Sound lists) (free : memory.jobs job = none) :
    memory.Unlisted lists job := by
  intro listed
  obtain ⟨handle, member, rfl⟩ := List.mem_map.mp listed
  rcases List.mem_append.mp member with member | member
  · simpa [free] using sound.live _ handle member
  · simpa [free] using sound.live _ handle member

theorem Sound.operate (sound : memory.Sound lists) (operation : JobOperation)
    (ran : memory.operate operation = some changed) : ∃ after, changed.Sound after := by
  cases operation with
  | launchJob address job reports answers =>
    simp only [JobMemory.operate] at ran
    split at ran
    next => simp at ran
    next fresh =>
      have free : memory.jobs address = none := by
        simpa using fun present => fresh (.inr present)
      obtain ⟨after, safe, -⟩ :=
        (sound.setJob address job).launchJob (sound.unlisted_of_free free) ran
      exact ⟨after, safe⟩
  | doFg arguments argc terminal reports answers => exact sound.doFg ran
  | doBg arguments argc answer => exact sound.doBg ran
  | printPendingJobs =>
    obtain ⟨printed, after, finished, safe⟩ := sound.printPendingJobs
    obtain rfl : printed = changed := Option.some.inj (finished.symm.trans ran)
    exact ⟨after, safe⟩
  | handleChld reports =>
    obtain ⟨visited, after, finished, safe⟩ := sound.handleChld reports
    obtain rfl : visited = changed := Option.some.inj (finished.symm.trans ran)
    exact ⟨after, safe⟩

theorem jobLists_sound (operations : List JobOperation) (memory : JobMemory)
    (ran : run operate initial operations = some memory) : ∃ lists, memory.Sound lists :=
  (reachable_of_run operations ran).invariant (fun memory => ∃ lists, memory.Sound lists)
    ⟨_, initial_sound⟩ fun _ operation _ ⟨_, sound⟩ _ taken => sound.operate operation taken

-- A background job and one stopped in the foreground; bg 2, fg, which gets no terminal, and fg, in
-- which the job ends; then the other one ends and is printed.
def sessionOperations : List JobOperation :=
  [.launchJob 100 { emptyJob with pgid := 7, pipelineSize := 1 } [] ⟨1, 2⟩,
    .launchJob 200 { emptyJob with pgid := 9, pipelineSize := 2, fg := true } [.stopped, .stopped]
      ⟨3, 4⟩,
    .doBg [some [98, 103], some [50]] 2 5, .doFg [some [102, 103]] 1 false [] ⟨0, 0⟩,
    .doFg [some [102, 103]] 1 true [.ended] ⟨6, 8⟩, .handleChld [[.ended]], .printPendingJobs]

theorem jobLists_sound_session : ∃ memory, run operate initial sessionOperations = some memory ∧
    ∃ lists, memory.Sound lists := by
  obtain ⟨memory, ran⟩ : ∃ memory, run operate initial sessionOperations = some memory :=
    Option.isSome_iff_exists.mp (by decide +kernel)
  exact ⟨memory, ran, jobLists_sound sessionOperations memory ran⟩

end JobMemory

end Akiso.Shell
