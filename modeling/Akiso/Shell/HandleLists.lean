import Akiso.Shared.ListChanges
import Akiso.Shell.Handles

set_option autoImplicit false

namespace Akiso.Shell

open LinkedList

namespace JobMemory

def jobOf (memory : JobMemory) (handle : Nat) : Nat :=
  (memory.handles.value handle).getD 0

def jobsOf (memory : JobMemory) (handles : List Nat) : List Nat :=
  handles.map memory.jobOf

def behind (memory : JobMemory) (handle : Nat) : Job :=
  (memory.jobs (memory.jobOf handle)).getD emptyJob

/-- The three lists end, share no handle and have none twice; no job is twice among the current and
the removed ones; every handle in a list points to a job that is allocated. -/
structure Sound (memory : JobMemory) (lists : JobList → List Nat) : Prop where
  represents : memory.handles.Represents lists
  once : (memory.jobsOf (lists .currentJob ++ lists .pendingRemovedJobs)).Nodup
  live : ∀ list, ∀ handle ∈ lists list, (memory.jobs (memory.jobOf handle)).isSome

def Unlisted (memory : JobMemory) (lists : JobList → List Nat) (job : Nat) : Prop :=
  job ∉ memory.jobsOf (lists .currentJob ++ lists .pendingRemovedJobs)

variable {memory changed : JobMemory} {lists : JobList → List Nat} {list : JobList}
  {handle job : Nat}

theorem jobOf_congr (same : changed.handles.value = memory.handles.value) :
    changed.jobOf = memory.jobOf := by
  funext handle
  simp [jobOf, same]

theorem Sound.frame (sound : memory.Sound lists) (represents : changed.handles.Represents lists)
    (jobs : ∀ name, ∀ handle ∈ lists name, changed.jobOf handle = memory.jobOf handle)
    (live : ∀ name, ∀ handle ∈ lists name, (memory.jobs (memory.jobOf handle)).isSome →
      (changed.jobs (memory.jobOf handle)).isSome) : changed.Sound lists := by
  refine ⟨represents, ?_, fun name handle member => ?_⟩
  · have same : changed.jobsOf (lists .currentJob ++ lists .pendingRemovedJobs) =
        memory.jobsOf (lists .currentJob ++ lists .pendingRemovedJobs) :=
      List.map_congr_left fun handle member => by
        rcases List.mem_append.mp member with inside | inside
        · exact jobs .currentJob handle inside
        · exact jobs .pendingRemovedJobs handle inside
    exact same ▸ sound.once
  · rw [jobs name handle member]
    exact live name handle member (sound.live name handle member)

theorem Sound.insert (sound : memory.Sound lists) {handles : Memory JobList Nat} {cells : List Nat}
    (value : handles.value = memory.handles.value)
    (represents : handles.Represents (Function.update lists list cells))
    (perm : cells.Perm (handle :: lists list)) (live : (memory.jobs (memory.jobOf handle)).isSome)
    (unlisted : list ≠ .pendingJobs → memory.Unlisted lists (memory.jobOf handle)) :
    Sound { memory with handles } (Function.update lists list cells) := by
  have jobs : jobOf { memory with handles } = memory.jobOf := jobOf_congr value
  refine ⟨represents, ?_, fun name other member => ?_⟩
  · rw [jobsOf, jobs]
    cases list with
    | currentJob =>
      have moved : (cells ++ lists .pendingRemovedJobs).Perm
          (handle :: (lists .currentJob ++ lists .pendingRemovedJobs)) :=
        perm.append_right _
      have nodup := List.nodup_cons.mpr ⟨unlisted (by simp), sound.once⟩
      simpa using (moved.map memory.jobOf).nodup_iff.mpr nodup
    | pendingJobs => simpa [jobsOf] using sound.once
    | pendingRemovedJobs =>
      have moved : (lists .currentJob ++ cells).Perm
          (handle :: (lists .currentJob ++ lists .pendingRemovedJobs)) :=
        (perm.append_left _).trans List.perm_middle
      have nodup := List.nodup_cons.mpr ⟨unlisted (by simp), sound.once⟩
      simpa using (moved.map memory.jobOf).nodup_iff.mpr nodup
  · rw [jobs]
    by_cases same : name = list
    · subst same
      rw [Function.update_self] at member
      rcases List.mem_cons.mp (perm.mem_iff.mp member) with rfl | member
      · exact live
      · exact sound.live name other member
    · rw [Function.update_of_ne same] at member
      exact sound.live name other member

theorem Sound.shrink (sound : memory.Sound lists) {handles : Memory JobList Nat} {cells : List Nat}
    (value : handles.value = memory.handles.value)
    (represents : handles.Represents (Function.update lists list cells))
    (sublist : cells.Sublist (lists list)) :
    Sound { memory with handles } (Function.update lists list cells) := by
  have jobs : jobOf { memory with handles } = memory.jobOf := jobOf_congr value
  refine ⟨represents, ?_, fun name other member => ?_⟩
  · rw [jobsOf, jobs]
    refine sound.once.sublist (List.Sublist.map _ ?_)
    cases list with
    | currentJob => simpa using sublist.append_right (lists .pendingRemovedJobs)
    | pendingJobs => simp
    | pendingRemovedJobs => simpa using sublist.append_left (lists .currentJob)
  · rw [jobs]
    by_cases same : name = list
    · subst same
      rw [Function.update_self] at member
      exact sound.live name other (sublist.subset member)
    · rw [Function.update_of_ne same] at member
      exact sound.live name other member

theorem Sound.setJob (sound : memory.Sound lists) (address : Nat) (cell : Job) :
    (memory.setJob address cell).Sound lists := by
  refine sound.frame sound.represents (fun _ _ _ => rfl) fun _ handle _ live => ?_
  by_cases same : memory.jobOf handle = address
  · simp [JobMemory.setJob, same]
  · simpa [JobMemory.setJob, Function.update_of_ne same] using live

theorem Sound.lookup (sound : memory.Sound lists) (member : handle ∈ lists list) :
    ∃ node cell, memory.handles.nodes handle = some node ∧ memory.jobOf handle = node.value ∧
      memory.jobs node.value = some cell ∧ memory.behind handle = cell := by
  obtain ⟨node, found⟩ := sound.represents.lookup member
  have job : memory.jobOf handle = node.value := by simp [jobOf, Memory.value, found]
  obtain ⟨cell, present⟩ := Option.isSome_iff_exists.mp (sound.live list handle member)
  exact ⟨node, cell, found, job, job ▸ present, by simp [behind, present]⟩

theorem Sound.matching (sound : memory.Sound lists) (pid : Nat) (member : handle ∈ lists list) :
    ((memory.handles.value handle).bind fun job =>
      (memory.jobs job).map fun job => decide (job.pgid = pid) || decide (pid = 0)) =
      some (decide ((memory.behind handle).pgid = pid ∨ pid = 0)) := by
  obtain ⟨node, cell, found, job, present, behind⟩ := sound.lookup member
  simp [Memory.value, found, present, behind]

theorem removeJobHandle_split (jobs : JobId → Job) (pid : Nat) {before after : List Nat}
    (passed : ∀ earlier ∈ before, ¬ ((jobs earlier).pgid = pid ∨ pid = 0))
    (matched : (jobs handle).pgid = pid ∨ pid = 0) :
    Shell.removeJobHandle jobs pid (before ++ handle :: after) =
      (some handle, before ++ after) := by
  induction before with
  | nil => simp [Shell.removeJobHandle, matched]
  | cons first before ih =>
    have missed := passed first (by simp)
    simp [Shell.removeJobHandle, missed, ih fun earlier member => passed earlier (by simp [member])]

theorem Sound.removeJobHandle (sound : memory.Sound lists) (list : JobList) (pid : Nat) :
    (memory.removeJobHandle list pid = some (0, memory) ∧
        Shell.removeJobHandle memory.behind pid (lists list) = (none, lists list)) ∨
      ∃ before handle after handles, lists list = before ++ handle :: after ∧
        memory.removeJobHandle list pid = some (handle, { memory with handles }) ∧
        handles.value = memory.handles.value ∧
        handles.Represents (Function.update lists list (before ++ after)) ∧
        handles.Loose (Function.update lists list (before ++ after)) handle ∧
        Shell.removeJobHandle memory.behind pid (lists list) = (some handle, before ++ after) := by
  cases found : (lists list).find? fun handle =>
      decide ((memory.behind handle).pgid = pid ∨ pid = 0) with
  | none =>
    have passed : ∀ handle ∈ lists list, ¬ ((memory.behind handle).pgid = pid ∨ pid = 0) := by
      simpa using found
    refine .inl ⟨?_, ?_⟩
    · have kept : memory.handles.remove _ list = some (0, memory.handles) :=
        sound.represents.remove_none fun handle member => by
          rw [sound.matching pid member]
          simpa using passed handle member
      simp [JobMemory.removeJobHandle, kept]
    · have missing : ∀ cells : List Nat, (∀ handle ∈ cells, handle ∈ lists list) →
          Shell.removeJobHandle memory.behind pid cells = (none, cells) := by
        intro cells inside
        induction cells with
        | nil => rfl
        | cons first rest ih =>
          have missed := passed first (inside first (by simp))
          have kept := ih fun other member => inside other (by simp [member])
          simp [Shell.removeJobHandle, missed, kept]
      exact missing _ fun _ member => member
  | some handle =>
    obtain ⟨matched, before, after, split, passed⟩ := List.find?_eq_some_iff_append.mp found
    have passed : ∀ earlier ∈ before, ¬ ((memory.behind earlier).pgid = pid ∨ pid = 0) := by
      simpa using passed
    have matched : (memory.behind handle).pgid = pid ∨ pid = 0 := by simpa using matched
    obtain ⟨handles, removed, value, represents, loose⟩ := sound.represents.remove_some split
      (fun earlier member => by
        rw [sound.matching pid (split ▸ List.mem_append_left _ member)]
        simpa using passed earlier member)
      (by
        rw [sound.matching pid (split ▸ by simp : handle ∈ lists list)]
        simpa using matched)
    refine .inr ⟨before, handle, after, handles, split, ?_, value, represents, loose, ?_⟩
    · simp [JobMemory.removeJobHandle, removed]
    · rw [split]
      exact removeJobHandle_split _ _ passed matched

theorem Sound.makeJobHandle (sound : memory.Sound lists)
    (made : memory.makeJobHandle handle job = some changed) :
    changed.Sound lists ∧ changed.handles.Loose lists handle ∧ changed.jobs = memory.jobs ∧
      memory.handles.value handle = none ∧ changed.jobOf = Function.update memory.jobOf handle job ∧
      ∀ other, other ≠ handle → changed.handles.value other = memory.handles.value other := by
  obtain ⟨handles, allocated, rfl⟩ := Option.map_eq_some_iff.mp made
  obtain ⟨free, -⟩ := Memory.allocate_some allocated
  have free : memory.handles.value handle = none := by simp [Memory.value, free]
  have value := Memory.value_allocate allocated
  have jobs : jobOf { memory with handles } = Function.update memory.jobOf handle job := by
    funext other
    by_cases same : other = handle <;> simp [jobOf, value, same]
  obtain ⟨represents, loose⟩ := sound.represents.allocate allocated
  have apart : ∀ name, ∀ other ∈ lists name, other ≠ handle := by
    rintro name other member rfl
    exact sound.represents.outside_of_free free name member
  refine ⟨sound.frame represents (fun name other member => ?_) (fun _ _ _ live => live), loose, rfl,
    free, jobs, fun other different => ?_⟩
  · rw [jobs, Function.update_of_ne (apart name other member)]
  · rw [value, Function.update_of_ne different]

theorem Sound.addFirst (sound : memory.Sound lists) (list : JobList)
    (loose : memory.handles.Loose lists handle) (live : (memory.jobs (memory.jobOf handle)).isSome)
    (unlisted : list ≠ .pendingJobs → memory.Unlisted lists (memory.jobOf handle)) :
    ∃ handles, memory.addFirst list handle = some { memory with handles } ∧
      handles.value = memory.handles.value ∧
      Sound { memory with handles } (Function.update lists list (handle :: lists list)) := by
  obtain ⟨handles, added, value, represents⟩ := sound.represents.addFirst list loose
  exact ⟨handles, by simp [JobMemory.addFirst, added], value,
    sound.insert value represents (List.Perm.refl _) live unlisted⟩

theorem Sound.addLast (sound : memory.Sound lists) (list : JobList)
    (loose : memory.handles.Loose lists handle) (live : (memory.jobs (memory.jobOf handle)).isSome)
    (unlisted : list ≠ .pendingJobs → memory.Unlisted lists (memory.jobOf handle)) :
    ∃ handles, memory.addLast list handle = some { memory with handles } ∧
      handles.value = memory.handles.value ∧
      Sound { memory with handles } (Function.update lists list (lists list ++ [handle])) := by
  obtain ⟨handles, added, value, represents⟩ := sound.represents.addLast list loose
  exact ⟨handles, by simp [JobMemory.addLast, added], value,
    sound.insert value represents (List.perm_append_singleton _ _) live unlisted⟩

structure Grows (memory changed : JobMemory) (lists after : JobList → List Nat) : Prop where
  listed : ∀ name, ∀ handle ∈ after name,
    handle ∈ lists name ∨ memory.handles.value handle = none
  kept : ∀ handle, (memory.handles.value handle).isSome →
    changed.handles.value handle = memory.handles.value handle

theorem Grows.refl (memory : JobMemory) (lists : JobList → List Nat) :
    memory.Grows memory lists lists :=
  ⟨fun _ _ member => .inl member, fun _ _ => rfl⟩

theorem Sound.listCurrent (sound : memory.Sound lists) (live : (memory.jobs job).isSome)
    (unlisted : memory.Unlisted lists job)
    (made : memory.makeJobHandle handle job = some changed) :
    ∃ handles, changed.addFirst .currentJob handle = some { changed with handles } ∧
      handles.value = changed.handles.value ∧ Sound { changed with handles }
        (Function.update lists .currentJob (handle :: lists .currentJob)) := by
  obtain ⟨safe, loose, jobs, free, jobOf, -⟩ := sound.makeJobHandle made
  have own : changed.jobOf handle = job := by simp [jobOf]
  have outside := sound.represents.outside_of_free free
  have still : changed.Unlisted lists job := by
    have same : changed.jobsOf (lists .currentJob ++ lists .pendingRemovedJobs) =
        memory.jobsOf (lists .currentJob ++ lists .pendingRemovedJobs) :=
      List.map_congr_left fun other member => by
        rw [jobOf, Function.update_of_ne]
        rintro rfl
        exact (List.mem_append.mp member).elim (outside _) (outside _)
    rw [Unlisted, same]
    exact unlisted
  exact safe.addFirst .currentJob loose (by rw [own, jobs]; exact live) fun _ => own.symm ▸ still

theorem Sound.listPending (sound : memory.Sound lists) (live : (memory.jobs job).isSome)
    (made : memory.makeJobHandle handle job = some changed) :
    ∃ handles, changed.addLast .pendingJobs handle = some { changed with handles } ∧
      handles.value = changed.handles.value ∧ Sound { changed with handles }
        (Function.update lists .pendingJobs (lists .pendingJobs ++ [handle])) := by
  obtain ⟨safe, loose, jobs, -, jobOf, -⟩ := sound.makeJobHandle made
  have own : changed.jobOf handle = job := by simp [jobOf]
  exact safe.addLast .pendingJobs loose (by rw [own, jobs]; exact live)
    fun other => absurd rfl other

theorem Sound.listJob (sound : memory.Sound lists) (live : (memory.jobs job).isSome)
    (unlisted : memory.Unlisted lists job) {answers : HandleAddresses}
    (ran : memory.listJob job answers = some changed) :
    ∃ after, changed.Sound after ∧ memory.Grows changed lists after := by
  simp only [JobMemory.listJob, Option.bind_eq_bind, Option.bind_eq_some_iff] at ran
  obtain ⟨first, made, second, added, third, madeAgain, addedAgain⟩ := ran
  obtain ⟨handles, addedFirst, value, soundFirst⟩ := sound.listCurrent live unlisted made
  obtain ⟨-, -, jobs, freeFirst, -, keptFirst⟩ := sound.makeJobHandle made
  obtain rfl : { first with handles } = second := Option.some.inj (addedFirst.symm.trans added)
  obtain ⟨final, addedLast, valueLast, soundLast⟩ :=
    soundFirst.listPending (by rw [jobs]; exact live) madeAgain
  obtain ⟨-, -, -, freeThird, -, keptThird⟩ := soundFirst.makeJobHandle madeAgain
  obtain rfl : { third with handles := final } = changed :=
    Option.some.inj (addedLast.symm.trans addedAgain)
  have firstValue (handle : Nat) (present : (memory.handles.value handle).isSome) :
      handles.value handle = memory.handles.value handle := by
    rw [value]
    refine keptFirst handle ?_
    rintro rfl
    simp [freeFirst] at present
  refine ⟨_, soundLast, ?_, fun handle present => ?_⟩
  · rintro (_ | _ | _) handle member
    · have member : handle ∈ answers.current :: lists .currentJob := by simpa using member
      rcases List.mem_cons.mp member with rfl | member
      · exact .inr freeFirst
      · exact .inl member
    · have member : handle ∈ lists .pendingJobs ++ [answers.pending] := by simpa using member
      rcases List.mem_append.mp member with member | last
      · exact .inl member
      · obtain rfl := List.mem_singleton.mp last
        refine .inr ?_
        by_contra present
        have present := Option.isSome_iff_ne_none.mpr present
        rw [← firstValue _ present] at present
        simp [freeThird] at present
    · exact .inl (by simpa using member)
  · have before := firstValue handle present
    rw [valueLast, keptThird handle, before]
    rintro rfl
    rw [← before] at present
    simp [freeThird] at present

theorem Sound.waitForFgJob (sound : memory.Sound lists) (unlisted : memory.Unlisted lists job)
    {answers : HandleAddresses} (wait : WaitState)
    (reports : List Report) (ran : memory.waitForFgJob job answers wait reports = some changed) :
    ∃ after, changed.Sound after ∧ memory.Grows changed lists after := by
  induction reports generalizing wait with
  | nil =>
    obtain ⟨-, -, rfl⟩ := Option.map_eq_some_iff.mp ran
    exact ⟨lists, sound, .refl memory lists⟩
  | cons report rest ih =>
    simp only [JobMemory.waitForFgJob, Option.bind_eq_bind, Option.bind_eq_some_iff] at ran
    obtain ⟨cell, present, ran⟩ := ran
    split at ran
    next =>
      have stopped := sound.setJob job { cell with fg := false, stopped := true }
      obtain ⟨after, safe, grows⟩ :=
        stopped.listJob (by simp [JobMemory.setJob]) unlisted ran
      exact ⟨after, safe, grows.listed, grows.kept⟩
    next => exact ih _ ran

theorem Sound.launchJob (sound : memory.Sound lists) (unlisted : memory.Unlisted lists job)
    {answers : HandleAddresses} {reports : List Report}
    (ran : memory.launchJob job reports answers = some changed) :
    ∃ after, changed.Sound after ∧ memory.Grows changed lists after := by
  simp only [JobMemory.launchJob, Option.bind_eq_bind, Option.bind_eq_some_iff] at ran
  obtain ⟨cell, present, ran⟩ := ran
  split at ran
  next => exact sound.waitForFgJob unlisted _ _ ran
  next => exact sound.listJob (by simp [present]) unlisted ran

theorem Sound.take (sound : memory.Sound lists) {before after : List Nat}
    {handles : Memory JobList Nat} (split : lists list = before ++ handle :: after)
    (value : handles.value = memory.handles.value)
    (represents : handles.Represents (Function.update lists list (before ++ after))) :
    Sound { memory with handles } (Function.update lists list (before ++ after)) ∧
      (memory.jobs (memory.jobOf handle)).isSome ∧
      (list ≠ .pendingJobs → Unlisted { memory with handles }
        (Function.update lists list (before ++ after)) (memory.jobOf handle)) := by
  refine ⟨sound.shrink value represents ?_, sound.live list handle (by simp [split]),
    fun other => ?_⟩
  · rw [split]
    exact (List.sublist_cons_self handle after).append_left before
  have jobs : jobOf { memory with handles } = memory.jobOf := jobOf_congr value
  rw [Unlisted, jobsOf, jobs]
  have once := sound.once
  cases list with
  | currentJob =>
    rw [jobsOf, split, List.append_assoc, List.cons_append] at once
    have moved := (List.perm_middle.map memory.jobOf).nodup_iff.mp once
    simpa using (List.nodup_cons.mp moved).1
  | pendingJobs => exact absurd rfl other
  | pendingRemovedJobs =>
    rw [jobsOf, split, ← List.append_assoc] at once
    have moved := (List.perm_middle.map memory.jobOf).nodup_iff.mp once
    simpa using (List.nodup_cons.mp moved).1

theorem Sound.ne_zero (sound : memory.Sound lists) (member : handle ∈ lists list) : handle ≠ 0 :=
  (sound.represents.chains list).ne_zero handle member

theorem Sound.getJobHandle (sound : memory.Sound lists)
    {arguments : List (Option (List UInt8))} {argc : Nat}
    (ran : memory.getJobHandle arguments argc = some (.handle handle changed)) :
    changed.handles.value = memory.handles.value ∧ changed.jobs = memory.jobs ∧
      (changed.jobs (changed.jobOf handle)).isSome ∧
      ∃ after, changed.Sound after ∧ changed.handles.Loose after handle ∧
        changed.Unlisted after (changed.jobOf handle) := by
  unfold JobMemory.getJobHandle at ran
  split at ran
  next => simp at ran
  next index _ =>
    simp only [Option.bind_eq_bind, Option.bind_eq_some_iff] at ran
    obtain ⟨⟨count, sought⟩, -, ran⟩ := ran
    dsimp only at ran
    split at ran
    next => simp at ran
    next =>
      simp only [Option.bind_eq_some_iff] at ran
      obtain ⟨node, -, cell, -, ⟨removed, taken⟩, removal, ran⟩ := ran
      rcases sound.removeJobHandle .currentJob cell.pgid with
        ⟨kept, -⟩ | ⟨before, first, after, handles, split, unlinked, value, represents, loose, -⟩
      · simp only [kept, Option.some.injEq, Prod.mk.injEq] at removal
        simp [← removal.1] at ran
      · simp only [unlinked, Option.some.injEq, Prod.mk.injEq] at removal
        obtain ⟨rfl, rfl⟩ := removal
        have positive : first ≠ 0 := sound.ne_zero (by simp [split] : first ∈ lists .currentJob)
        obtain ⟨rfl, rfl⟩ : first = handle ∧ { memory with handles } = changed := by
          simpa [positive] using ran
        obtain ⟨safe, live, unlisted⟩ := sound.take split value represents
        have jobs : jobOf { memory with handles } = memory.jobOf := jobOf_congr value
        refine ⟨value, rfl, by rw [jobs]; exact live, _, safe, loose, ?_⟩
        rw [jobs]
        exact unlisted (by simp)

theorem jobOf_of_nodes {node : Node Nat} (found : memory.handles.nodes handle = some node) :
    memory.jobOf handle = node.value := by
  simp [jobOf, Memory.value, found]

theorem Sound.freeHandle (sound : memory.Sound lists) (outside : ∀ name, handle ∉ lists name)
    (present : (memory.handles.value handle).isSome) :
    ∃ handles, memory.freeHandle handle = some { memory with handles } ∧
      Sound { memory with handles } lists := by
  obtain ⟨handles, released, represents, value⟩ := sound.represents.free outside present
  refine ⟨handles, by simp [JobMemory.freeHandle, released],
    sound.frame represents (fun name other member => ?_) fun _ _ _ live => live⟩
  have different : other ≠ handle := by
    rintro rfl
    exact outside name member
  simp [jobOf, value, different]

theorem Sound.freeTaken {after : JobList → List Nat} (sound : changed.Sound after)
    (grows : memory.Grows changed lists after) (loose : memory.handles.Loose lists handle) :
    ∃ handles, changed.freeHandle handle = some { changed with handles } ∧
      Sound { changed with handles } after := by
  obtain ⟨node, found, -⟩ := loose.ended
  have allocated : (memory.handles.value handle).isSome := by simp [Memory.value, found]
  refine sound.freeHandle (fun name member => ?_) ?_
  · rcases grows.listed name handle member with before | free
    · exact loose.outside name before
    · exact Option.isSome_iff_ne_none.mp allocated free
  · rw [grows.kept handle allocated]
    exact allocated

theorem Sound.doFg (sound : memory.Sound lists) {arguments : List (Option (List UInt8))}
    {argc : Nat} {terminal : Bool} {reports : List Report} {answers : HandleAddresses}
    (ran : memory.doFg arguments argc terminal reports answers = some changed) :
    ∃ after, changed.Sound after := by
  simp only [JobMemory.doFg, Option.bind_eq_bind, Option.bind_eq_some_iff] at ran
  obtain ⟨fetched, got, ran⟩ := ran
  cases fetched with
  | badArguments => exact ⟨lists, Option.some.inj ran ▸ sound⟩
  | noSuchJob => exact ⟨lists, Option.some.inj ran ▸ sound⟩
  | notRemoved => simp at ran
  | handle handle taken =>
    obtain ⟨-, -, live, rest, safe, loose, unlisted⟩ := sound.getJobHandle got
    simp only [Option.bind_eq_some_iff] at ran
    obtain ⟨node, found, cell, present, ran⟩ := ran
    have job := jobOf_of_nodes found
    cases terminal with
    | false =>
      simp only [Bool.not_false, if_true] at ran
      obtain ⟨handles, added, -, relisted⟩ := safe.addLast .currentJob loose live fun _ => unlisted
      obtain rfl := Option.some.inj (added.symm.trans ran)
      exact ⟨_, relisted⟩
    | true =>
      simp only [Bool.not_true, Bool.false_eq_true, if_false, Option.bind_eq_some_iff] at ran
      obtain ⟨waited, launched, freed⟩ := ran
      obtain ⟨after, waitedSafe, grows⟩ :=
        (safe.setJob node.value { cell with stopped := false, fg := true }).launchJob
          (job ▸ unlisted) launched
      obtain ⟨handles, released, relisted⟩ := waitedSafe.freeTaken grows loose
      obtain rfl := Option.some.inj (released.symm.trans freed)
      exact ⟨after, relisted⟩

theorem Sound.resume (sound : memory.Sound lists) (loose : memory.handles.Loose lists handle)
    (same : memory.jobOf handle = job) (unlisted : memory.Unlisted lists (memory.jobOf handle))
    (cell : Job) :
    ∃ handles, (memory.setJob job cell).addLast .currentJob handle =
        some { memory.setJob job cell with handles } ∧ handles.value = memory.handles.value ∧
      Sound { memory.setJob job cell with handles }
        (Function.update lists .currentJob (lists .currentJob ++ [handle])) := by
  refine (sound.setJob job cell).addLast .currentJob loose ?_ fun _ => unlisted
  have still : (memory.setJob job cell).jobOf handle = job := same
  rw [still]
  simp [JobMemory.setJob]

theorem Sound.doBg (sound : memory.Sound lists) {arguments : List (Option (List UInt8))}
    {argc answer : Nat} (ran : memory.doBg arguments argc answer = some changed) :
    ∃ after, changed.Sound after := by
  simp only [JobMemory.doBg, Option.bind_eq_bind, Option.bind_eq_some_iff] at ran
  obtain ⟨fetched, got, ran⟩ := ran
  cases fetched with
  | badArguments => exact ⟨lists, Option.some.inj ran ▸ sound⟩
  | noSuchJob => exact ⟨lists, Option.some.inj ran ▸ sound⟩
  | notRemoved => simp at ran
  | handle handle taken =>
    obtain ⟨-, -, -, rest, safe, loose, unlisted⟩ := sound.getJobHandle got
    simp only [Option.bind_eq_some_iff] at ran
    obtain ⟨node, found, cell, present, relisted, added, announced, made, ran⟩ := ran
    have job := jobOf_of_nodes found
    obtain ⟨handles, addedLast, -, listed⟩ :=
      safe.resume loose job unlisted { cell with stopped := false }
    obtain rfl := Option.some.inj (addedLast.symm.trans added)
    obtain ⟨final, addedFinal, -, finalSafe⟩ :=
      listed.listPending (by simp [JobMemory.setJob]) made
    obtain rfl := Option.some.inj (addedFinal.symm.trans ran)
    exact ⟨_, finalSafe⟩

end JobMemory

end Akiso.Shell
