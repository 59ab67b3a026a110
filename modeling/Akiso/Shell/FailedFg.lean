import Akiso.Shell.Selection

set_option autoImplicit false

namespace Akiso.Shell

open LinkedList

theorem removeJobHandle_first {jobs : JobId → Job} {pid first : Nat} {front back : List Nat}
    (nodup : (front ++ first :: back).Nodup)
    (removed : (removeJobHandle jobs pid (front ++ first :: back)).1 = some first) :
    (∀ earlier ∈ front, ¬ ((jobs earlier).pgid = pid ∨ pid = 0)) ∧
      ((jobs first).pgid = pid ∨ pid = 0) := by
  induction front with
  | nil =>
    obtain ⟨_, _, _, _, matched⟩ := removeJobHandle_some removed
    exact ⟨by simp, matched⟩
  | cons head rest ih =>
    obtain ⟨apart, nodup⟩ := List.nodup_cons.mp nodup
    by_cases found : (jobs head).pgid = pid ∨ pid = 0
    · rw [List.cons_append, removeJobHandle, if_pos found, Option.some.injEq] at removed
      exact absurd (by simp [removed]) apart
    · rw [List.cons_append, removeJobHandle, if_neg found] at removed
      obtain ⟨passed, matched⟩ := ih nodup removed
      refine ⟨fun earlier member => ?_, matched⟩
      rcases List.mem_cons.mp member with rfl | later
      · exact found
      · exact passed earlier later

theorem numbered_handles (first : Int) (handles : List Nat) :
    (numbered first handles).map Prod.snd = handles := by
  induction handles generalizing first with
  | nil => rfl
  | cons head rest ih => simp [numbered, ih]

namespace JobMemory

-- do_fg with the code it returns; -999 is dereferenced like a handle.
def doFgReturning (memory : JobMemory) (arguments : List (Option (List UInt8))) (argc : Nat)
    (terminal : Bool) (reports : List Report) (answers : HandleAddresses) :
    Option (ParseResult × JobMemory) := do
  match ← memory.getJobHandle arguments argc with
  | .badArguments => some (.syntaxError, memory)
  | .noSuchJob => some (.otherError, memory)
  | .notRemoved => none
  | .handle handle memory =>
    let node ← memory.handles.nodes handle
    let cell ← memory.jobs node.value
    if !terminal then
      (memory.addLast .currentJob handle).map fun memory => (.errorErrno, memory)
    else
      let memory := memory.setJob node.value { cell with stopped := false, fg := true }
      let memory ← memory.launchJob node.value reports answers
      (memory.freeHandle handle).map fun memory => (.ok, memory)

variable {memory : JobMemory} {lists : JobList → List Nat}
  {arguments : List (Option (List UInt8))} {argc : Nat} {terminal : Bool}
  {reports : List Report} {answers : HandleAddresses}

theorem doFgReturning_memory :
    (memory.doFgReturning arguments argc terminal reports answers).map Prod.snd =
      memory.doFg arguments argc terminal reports answers := by
  unfold doFgReturning doFg
  cases memory.getJobHandle arguments argc with
  | none => rfl
  | some fetched =>
    cases fetched with
    | handle handle taken =>
      cases terminal <;> simp [Option.map_bind, Function.comp_def]
    | _ => rfl

def SameJobs (memory changed : JobMemory) : Prop :=
  changed.doJobs = memory.doJobs ∧ changed.jobOf = memory.jobOf ∧
    ∀ job, ((changed.jobs job).map fun cell => (cell.fg, cell.stopped)) =
      (memory.jobs job).map fun cell => (cell.fg, cell.stopped)

def FailsCleanly (memory : JobMemory) (arguments : List (Option (List UInt8))) (argc : Nat)
    (terminal : Bool) (reports : List Report) (answers : HandleAddresses) : Prop :=
  ∀ result changed, memory.doFgReturning arguments argc terminal reports answers =
    some (result, changed) → result ≠ .ok → memory.SameJobs changed

def SelectsLast (memory : JobMemory) (lists : JobList → List Nat)
    (arguments : List (Option (List UInt8))) (argc : Nat) : Prop :=
  ∀ before handle after, lists .currentJob = before ++ handle :: after →
    handleIndex arguments argc = some (1 + (before.length : Int)) →
      ∀ other ∈ (lists .currentJob).dropLast,
        ¬ ((memory.behind other).pgid = (memory.behind handle).pgid ∨
          (memory.behind handle).pgid = 0)

theorem SameJobs.refl (memory : JobMemory) : memory.SameJobs memory :=
  ⟨rfl, rfl, fun _ => rfl⟩

theorem SameJobs.of_lists {changed : JobMemory} {after : JobList → List Nat}
    (sound : memory.Sound lists) (safe : changed.Sound after)
    (order : after .currentJob = lists .currentJob)
    (value : changed.handles.value = memory.handles.value) (jobs : changed.jobs = memory.jobs) :
    memory.SameJobs changed := by
  refine ⟨?_, jobOf_congr value, fun job => by rw [jobs]⟩
  rw [sound.doJobs, safe.doJobs, order]

theorem sameJobs_of_error {result : ParseResult} {changed : JobMemory}
    (refused : memory.getJobHandle arguments argc = some .badArguments ∨
      memory.getJobHandle arguments argc = some .noSuchJob)
    (returned : memory.doFgReturning arguments argc terminal reports answers =
      some (result, changed)) : memory.SameJobs changed := by
  have unchanged : memory = changed := by
    rcases refused with got | got
    · simp only [doFgReturning, got, Option.bind_eq_bind, Option.bind_some] at returned
      exact (Prod.mk.inj (Option.some.inj returned)).2
    · simp only [doFgReturning, got, Option.bind_eq_bind, Option.bind_some] at returned
      exact (Prod.mk.inj (Option.some.inj returned)).2
  exact unchanged ▸ SameJobs.refl memory

theorem ok_of_handedOver {handle : Nat} {taken changed : JobMemory} {result : ParseResult}
    (got : memory.getJobHandle arguments argc = some (.handle handle taken))
    (returned : memory.doFgReturning arguments argc true reports answers =
      some (result, changed)) : result = .ok := by
  simp only [doFgReturning, got, Option.bind_eq_bind, Option.bind_some, Bool.not_true,
    Bool.false_eq_true, if_false, Option.bind_eq_some_iff, Option.map_eq_some_iff] at returned
  obtain ⟨_, -, _, -, _, -, _, -, same⟩ := returned
  exact (Prod.mk.inj same).1.symm

theorem Sound.doFg_refused (sound : memory.Sound lists) (reports : List Report)
    (answers : HandleAddresses) {before after : List Nat} {handle : Nat}
    (split : lists .currentJob = before ++ handle :: after)
    (number : handleIndex arguments argc = some (1 + (before.length : Int))) :
    ∃ front first back changed, lists .currentJob = front ++ first :: back ∧
      Shell.removeJobHandle memory.behind (memory.behind handle).pgid (lists .currentJob) =
        (some first, front ++ back) ∧
      memory.doFgReturning arguments argc false reports answers = some (.errorErrno, changed) ∧
      changed.jobs = memory.jobs ∧ changed.handles.value = memory.handles.value ∧
      changed.Sound (Function.update lists .currentJob (front ++ back ++ [first])) := by
  obtain ⟨front, first, back, taken, parts, found, got, jobs, value, safe, loose, unlisted⟩ :=
    sound.getJobHandle_found split number rfl
  have sameJob : taken.jobOf = memory.jobOf := jobOf_congr value
  have live : (taken.jobs (taken.jobOf first)).isSome := by
    rw [jobs, sameJob]
    exact sound.live .currentJob first (by simp [parts])
  obtain ⟨handles, added, kept, relisted⟩ := safe.addLast .currentJob loose live fun _ => unlisted
  obtain ⟨node, present, -⟩ := loose.ended
  rw [jobOf_of_nodes present] at live
  obtain ⟨cell, allocated⟩ := Option.isSome_iff_exists.mp live
  refine ⟨front, first, back, { taken with handles }, parts, found, ?_, jobs, kept.trans value, ?_⟩
  · simp [doFgReturning, got, present, allocated, added]
  · simpa using relisted

theorem order_kept_iff {front back : List Nat} {first : Nat}
    (nodup : (front ++ first :: back).Nodup) :
    front ++ back ++ [first] = front ++ first :: back ↔ back = [] := by
  constructor
  · intro same
    rw [List.append_assoc, List.append_cancel_left_eq] at same
    cases back with
    | nil => rfl
    | cons next rest =>
      obtain ⟨rfl, -⟩ := List.cons.inj same
      exact absurd List.mem_cons_self
        (List.nodup_cons.mp (List.nodup_append.mp nodup).2.1).1
  · rintro rfl
    simp

theorem selectsLast_iff (sound : memory.Sound lists) {front back : List Nat}
    {first handle : Nat} (parts : lists .currentJob = front ++ first :: back)
    (found : Shell.removeJobHandle memory.behind (memory.behind handle).pgid (lists .currentJob) =
      (some first, front ++ back)) :
    (∀ other ∈ (lists .currentJob).dropLast,
      ¬ ((memory.behind other).pgid = (memory.behind handle).pgid ∨
        (memory.behind handle).pgid = 0)) ↔ back = [] := by
  have nodup := sound.represents.nodup .currentJob
  rw [parts] at nodup found ⊢
  obtain ⟨passed, matched⟩ := removeJobHandle_first nodup (by rw [found])
  constructor
  · intro unmatched
    by_contra more
    refine unmatched first ?_ matched
    rw [List.dropLast_append_cons, List.dropLast_cons_of_ne_nil more]
    simp
  · rintro rfl
    simpa using passed

/-- do_fg leaves the jobs as they were whenever it fails if and only if it gets the terminal, or
takes no job, or the one it takes is the last of current_job. -/
theorem doFg_failsCleanly_iff (sound : memory.Sound lists) :
    memory.FailsCleanly arguments argc terminal reports answers ↔
      (terminal = false → memory.SelectsLast lists arguments argc) := by
  constructor
  · rintro clean rfl before handle after split number
    obtain ⟨front, first, back, changed, parts, found, refused, -, -, safe⟩ :=
      sound.doFg_refused reports answers split number
    have same := (clean .errorErrno changed refused (by decide)).1
    rw [sound.doJobs, safe.doJobs, Function.update_self] at same
    have order : front ++ back ++ [first] = front ++ first :: back := by
      have shown := congrArg (List.map Prod.snd) (Option.some.inj same)
      rwa [numbered_handles, numbered_handles, parts] at shown
    apply (selectsLast_iff sound parts found).mpr
    exact (order_kept_iff (parts ▸ sound.represents.nodup .currentJob)).mp order
  · intro last result changed returned failed
    cases number : handleIndex arguments argc with
    | none =>
      have refused : memory.getJobHandle arguments argc = some .badArguments := by
        simp [JobMemory.getJobHandle, number]
      exact sameJobs_of_error (.inl refused) returned
    | some index =>
      by_cases within : 1 ≤ index ∧ index ≤ (lists .currentJob).length
      · obtain ⟨handle, member⟩ := exists_numbered.mpr within
        obtain ⟨before, after, split, rfl⟩ := mem_numbered.mp member
        cases terminal with
        | false =>
          obtain ⟨front, first, back, relisted, parts, found, refused, jobs, value, safe⟩ :=
            sound.doFg_refused reports answers split number
          obtain ⟨-, rfl⟩ := Prod.mk.inj (Option.some.inj (refused.symm.trans returned))
          apply SameJobs.of_lists sound safe _ value jobs
          rw [Function.update_self, parts]
          apply (order_kept_iff (parts ▸ sound.represents.nodup .currentJob)).mpr
          exact (selectsLast_iff sound parts found).mp (last rfl before handle after split number)
        | true =>
          obtain ⟨front, first, back, taken, -, -, got, -⟩ :=
            sound.getJobHandle_found split number rfl
          exact absurd (ok_of_handedOver got returned) failed
      · have outcome := sound.getJobHandle_other number within
        split at outcome
        next => simp [doFgReturning, outcome] at returned
        next => exact sameJobs_of_error (.inr outcome) returned

theorem doFg_failsCleanly_second :
    pairJobs.FailsCleanly [some [102, 103], some [50], none] 2 false [] ⟨3, 4⟩ := by
  apply (doFg_failsCleanly_iff pairJobs_sound).mpr
  rintro - before handle after split number other member
  have second : (1 : Int) + before.length = 2 := (Option.some.inj number).symm
  obtain ⟨first, rfl⟩ : ∃ first, before = [first] := List.length_eq_one_iff.mp (by omega)
  obtain ⟨rfl, rfl, rfl⟩ : first = 1 ∧ handle = 2 ∧ after = [] := by
    simpa [pairLists, eq_comm] using split
  obtain rfl : other = 1 := by simpa [pairLists] using member
  decide

theorem doFg_failsCleanly_fails :
    ¬ ∀ memory lists arguments argc terminal reports answers, JobMemory.Sound memory lists →
      memory.FailsCleanly arguments argc terminal reports answers := by
  intro claim
  have swapped : ((pairJobs.doFgReturning [some [102, 103], none] 1 false [] ⟨3, 4⟩).map
      fun outcome => (outcome.1, outcome.2.doJobs)) =
        some (.errorErrno, some [(1, 2), (2, 1)]) := by rfl
  obtain ⟨⟨result, changed⟩, returned, same⟩ := Option.map_eq_some_iff.mp swapped
  obtain ⟨rfl, printed⟩ := Prod.mk.inj same
  have kept := (claim _ _ _ _ _ _ _ pairJobs_sound .errorErrno changed returned (by decide)).1
  have before : pairJobs.doJobs = some [(1, 1), (2, 2)] := by rfl
  rw [printed, before] at kept
  simp at kept

end JobMemory

end Akiso.Shell
