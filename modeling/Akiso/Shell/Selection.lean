import Akiso.Shell.HandleReturns

set_option autoImplicit false

namespace Akiso.Shell

open LinkedList Strtol

def argumentVector (command : List UInt8) (argument : Option (List UInt8)) :
    List (Option (List UInt8)) :=
  some command :: argument.toList.map some ++ [none]

def argumentCount (argument : Option (List UInt8)) : Nat :=
  1 + argument.toList.length

def numberGiven : Option (List UInt8) → Option Int
  | none => some 1
  | some text => written text

def numbered (first : Int) : List Nat → List (Int × Nat)
  | [] => []
  | handle :: rest => (first, handle) :: numbered (first + 1) rest

namespace JobMemory

-- print_job(i++, ptr->job) for each handle, with the handle in the place of its job.
def doJobsFrom (memory : JobMemory) : Nat → Nat → Int → Option (List (Int × Nat))
  | 0, _, _ => none
  | fuel + 1, handle, number =>
    if handle = 0 then some []
    else do
      let node ← memory.handles.nodes handle
      let _ ← memory.jobs node.value
      let printed ← memory.doJobsFrom fuel node.next (number + 1)
      return (number, handle) :: printed

def doJobs (memory : JobMemory) : Option (List (Int × Nat)) :=
  memory.doJobsFrom (memory.handles.limit + 1) (memory.handles.heads .currentJob) 1

def Selects (memory : JobMemory) (lists : JobList → List Nat) (command : List UInt8)
    (argument : Option (List UInt8)) : Prop :=
  ∃ printed, memory.doJobs = some printed ∧
    (∀ number handle, numberGiven argument = some number → (number, handle) ∈ printed →
      ∃ before after changed, lists .currentJob = before ++ handle :: after ∧
        memory.getJobHandle (argumentVector command argument) (argumentCount argument) =
          some (.handle handle changed) ∧
        changed.jobs = memory.jobs ∧ changed.handles.value = memory.handles.value ∧
        changed.Sound (Function.update lists .currentJob (before ++ after))) ∧
    ((∀ number handle, numberGiven argument = some number → (number, handle) ∉ printed) →
      memory.getJobHandle (argumentVector command argument) (argumentCount argument) =
          some .badArguments ∨
        memory.getJobHandle (argumentVector command argument) (argumentCount argument) =
          some .noSuchJob)

structure DistinctGroups (memory : JobMemory) (lists : JobList → List Nat) : Prop where
  separate : ∀ one ∈ lists .currentJob, ∀ other ∈ lists .currentJob,
    (memory.behind one).pgid = (memory.behind other).pgid → one = other
  bounded : ∀ handle ∈ lists .currentJob,
    0 < (memory.behind handle).pgid ∧ (memory.behind handle).pgid < 2147483648

end JobMemory

-- A number that is no job's does not become one, nor 0 with no job at all, when it is cut down to
-- an int.
def NarrowsApart (jobs : Nat) (argument : Option (List UInt8)) : Prop :=
  ∀ number, numberGiven argument = some number → 1 ≤ number ∧ number ≤ jobs ∨
    ¬ (1 ≤ toInt (saturate number) ∧ toInt (saturate number) ≤ jobs) ∧
      ¬ (toInt (saturate number) = 0 ∧ jobs = 0)

theorem handleIndex_eq (command : List UInt8) (argument : Option (List UInt8)) :
    handleIndex (argumentVector command argument) (argumentCount argument) =
      (numberGiven argument).map fun number => toInt (saturate number) := by
  cases argument with
  | none => rfl
  | some text =>
    have second : (argumentVector command (some text))[1]? = some (some text) := rfl
    simp only [handleIndex, argumentCount, Option.toList_some, List.length_singleton, second]
    by_cases empty : text = []
    · subst empty
      rfl
    · cases number : written text with
      | none =>
        have rest := strtol_of_not_written text empty number
        simp [numberGiven, number, rest]
      | some value =>
        have whole := strtol_of_written text value number
        simp [numberGiven, number, whole, empty]

theorem mem_numbered {number first : Int} {handle : Nat} {handles : List Nat} :
    (number, handle) ∈ numbered first handles ↔
      ∃ before after, handles = before ++ handle :: after ∧ number = first + before.length := by
  induction handles generalizing first with
  | nil => simp [numbered]
  | cons head rest ih =>
    rw [numbered, List.mem_cons, ih]
    constructor
    · rintro (same | ⟨before, after, rfl, rfl⟩)
      · obtain ⟨rfl, rfl⟩ := Prod.mk.inj same
        exact ⟨[], rest, rfl, by simp⟩
      · refine ⟨head :: before, after, rfl, ?_⟩
        rw [List.length_cons]
        omega
    · rintro ⟨before, after, split, rfl⟩
      cases before with
      | nil =>
        obtain ⟨rfl, rfl⟩ := List.cons.inj split
        exact Or.inl (by simp)
      | cons other before =>
        obtain ⟨rfl, rfl⟩ := List.cons.inj split
        refine Or.inr ⟨before, after, rfl, ?_⟩
        rw [List.length_cons]
        omega

theorem exists_numbered {number : Int} {handles : List Nat} :
    (∃ handle, (number, handle) ∈ numbered 1 handles) ↔ 1 ≤ number ∧ number ≤ handles.length := by
  constructor
  · rintro ⟨handle, printed⟩
    obtain ⟨before, after, rfl, rfl⟩ := mem_numbered.mp printed
    rw [List.length_append, List.length_cons]
    omega
  · rintro ⟨low, high⟩
    obtain ⟨place, rfl⟩ : ∃ place : Nat, number = 1 + place := ⟨(number - 1).toNat, by omega⟩
    have inside : place < handles.length := by omega
    refine ⟨handles[place], mem_numbered.mpr ⟨handles.take place, handles.drop (place + 1), ?_, ?_⟩⟩
    · rw [List.getElem_cons_drop, List.take_append_drop]
    · rw [List.length_take, Nat.min_eq_left inside.le]

theorem seekHandle_hit {index count : Int} {before after : List Nat} {handle : Nat}
    (counted : index = count + before.length + 1) :
    seekHandle index (before ++ handle :: after) count = (index, some handle) := by
  induction before generalizing count with
  | nil =>
    have here : count + 1 = index := by simp [counted]
    simp [seekHandle, here]
  | cons first rest ih =>
    rw [List.length_cons] at counted
    have past : count + 1 ≠ index := by omega
    rw [List.cons_append, seekHandle, if_neg past]
    exact ih (by omega)

theorem seekHandle_miss {index count : Int} {handles : List Nat}
    (outside : ¬ (count < index ∧ index ≤ count + handles.length)) :
    seekHandle index handles count = (count + handles.length, none) := by
  induction handles generalizing count with
  | nil => simp [seekHandle]
  | cons first rest ih =>
    rw [List.length_cons] at outside
    have past : count + 1 ≠ index := by omega
    rw [seekHandle, if_neg past, ih (by omega), List.length_cons]
    have total : count + 1 + (rest.length : Int) = count + ((rest.length + 1 : Nat) : Int) := by
      omega
    rw [total]

namespace JobMemory

variable {memory : JobMemory} {lists : JobList → List Nat}

theorem doJobsFrom_eq (fuel : Nat) {pointer : Nat} {rest : List Nat}
    (chain : memory.handles.Chain pointer rest) (enough : rest.length < fuel)
    (live : ∀ handle ∈ rest, (memory.jobs (memory.jobOf handle)).isSome) (number : Int) :
    memory.doJobsFrom fuel pointer number = some (numbered number rest) := by
  induction rest generalizing fuel pointer number with
  | nil =>
    obtain rfl : pointer = 0 := chain
    cases fuel with
    | zero => simp at enough
    | succ fuel => simp [doJobsFrom, numbered]
  | cons handle rest ih =>
    have positive := chain.ne_zero handle (by simp)
    obtain ⟨rfl, node, found, onward⟩ := chain
    have present := live _ List.mem_cons_self
    rw [jobOf_of_nodes found] at present
    obtain ⟨cell, present⟩ := Option.isSome_iff_exists.mp present
    cases fuel with
    | zero => simp at enough
    | succ fuel =>
      have printed := ih fuel onward (by simpa using enough)
        (fun other member => live other (List.mem_cons_of_mem _ member)) (number + 1)
      simp [doJobsFrom, numbered, positive, found, present, printed]

theorem Sound.doJobs (sound : memory.Sound lists) :
    memory.doJobs = some (numbered 1 (lists .currentJob)) := by
  apply doJobsFrom_eq
  · exact sound.represents.chains .currentJob
  · exact sound.length_le .currentJob
  · exact sound.live .currentJob

-- The selected job's pgid is searched again: what is unlinked is the first handle with it.
theorem Sound.getJobHandle_found (sound : memory.Sound lists)
    {arguments : List (Option (List UInt8))} {argc : Nat} {before after : List Nat} {handle : Nat}
    {index : Int} (split : lists .currentJob = before ++ handle :: after)
    (number : handleIndex arguments argc = some index) (counted : index = 1 + before.length) :
    ∃ front first back changed, lists .currentJob = front ++ first :: back ∧
      Shell.removeJobHandle memory.behind (memory.behind handle).pgid (lists .currentJob) =
        (some first, front ++ back) ∧
      memory.getJobHandle arguments argc = some (.handle first changed) ∧
      changed.jobs = memory.jobs ∧ changed.handles.value = memory.handles.value ∧
      changed.Sound (Function.update lists .currentJob (front ++ back)) ∧
      changed.handles.Loose (Function.update lists .currentJob (front ++ back)) first ∧
      changed.Unlisted (Function.update lists .currentJob (front ++ back))
        (changed.jobOf first) := by
  have listed : handle ∈ lists .currentJob := by simp [split]
  have seek := memory.seekHandle_eq index (memory.handles.limit + 1)
    (sound.represents.chains .currentJob) (sound.length_le .currentJob) 0
  have sought : Shell.seekHandle index (lists .currentJob) 0 = (index, some handle) := by
    rw [split]
    exact seekHandle_hit (by omega)
  obtain ⟨node, cell, nodes, -, present, behind⟩ := sound.lookup listed
  rcases sound.removeJobHandle .currentJob (memory.behind handle).pgid with
    ⟨-, missed⟩ | ⟨front, first, back, handles, parts, unlinked, value, represents, loose, found⟩
  · obtain ⟨other, present⟩ := removeJobHandle_isSome listed
      (rfl : (memory.behind handle).pgid = (memory.behind handle).pgid)
    simp [missed] at present
  · obtain ⟨safe, -, unlisted⟩ := sound.take parts value represents
    have jobs : jobOf { memory with handles } = memory.jobOf := jobOf_congr value
    refine ⟨front, first, back, { memory with handles }, parts, found, ?_, rfl, value, safe, loose,
      by rw [jobs]; exact unlisted (by simp)⟩
    have positive : first ≠ 0 := sound.ne_zero (by simp [parts] : first ∈ lists .currentJob)
    rw [behind] at unlinked
    simp [JobMemory.getJobHandle, number, seek, sought, nodes, present, unlinked, positive]

theorem DistinctGroups.removal (distinct : memory.DistinctGroups lists)
    (nodup : (lists .currentJob).Nodup) {before after : List Nat} {handle : Nat}
    (split : lists .currentJob = before ++ handle :: after) :
    Shell.removeJobHandle memory.behind (memory.behind handle).pgid (lists .currentJob) =
      (some handle, before ++ after) := by
  have listed : handle ∈ lists .currentJob := by simp [split]
  have positive := (distinct.bounded handle listed).1
  rw [split] at nodup ⊢
  apply removeJobHandle_split
  · intro earlier member matched
    have earlierListed : earlier ∈ lists .currentJob := by simp [split, member]
    have same := distinct.separate earlier earlierListed handle listed
      (matched.resolve_right (by omega))
    exact (List.nodup_append.mp nodup).2.2 earlier member handle List.mem_cons_self same
  · exact Or.inl rfl

theorem Sound.getJobHandle_number (sound : memory.Sound lists)
    (distinct : memory.DistinctGroups lists) {arguments : List (Option (List UInt8))}
    {argc : Nat} {before after : List Nat} {handle : Nat} {index : Int}
    (split : lists .currentJob = before ++ handle :: after)
    (number : handleIndex arguments argc = some index) (counted : index = 1 + before.length) :
    ∃ changed, memory.getJobHandle arguments argc = some (.handle handle changed) ∧
      changed.jobs = memory.jobs ∧ changed.handles.value = memory.handles.value ∧
      changed.Sound (Function.update lists .currentJob (before ++ after)) := by
  have removal := distinct.removal (sound.represents.nodup .currentJob) split
  obtain ⟨front, first, back, changed, -, found, got, jobs, value, safe, -⟩ :=
    sound.getJobHandle_found split number counted
  obtain ⟨same, kept⟩ := Prod.mk.inj (found.symm.trans removal)
  obtain rfl := Option.some.inj same
  rw [kept] at safe
  exact ⟨changed, got, jobs, value, safe⟩

theorem Sound.getJobHandle_other (sound : memory.Sound lists)
    {arguments : List (Option (List UInt8))} {argc : Nat} {index : Int}
    (number : handleIndex arguments argc = some index)
    (outside : ¬ (1 ≤ index ∧ index ≤ (lists .currentJob).length)) :
    memory.getJobHandle arguments argc =
      if index = 0 ∧ (lists .currentJob).length = 0 then none else some .noSuchJob := by
  have seek := memory.seekHandle_eq index (memory.handles.limit + 1)
    (sound.represents.chains .currentJob) (sound.length_le .currentJob) 0
  rw [seekHandle_miss (by omega)] at seek
  by_cases null : index = 0 ∧ (lists .currentJob).length = 0
  · obtain ⟨rfl, empty⟩ := null
    rw [empty] at seek
    simp [JobMemory.getJobHandle, number, seek, empty, memory.handles.null]
  · have missed : (0 : Int) + (lists .currentJob).length ≠ index := by omega
    rw [if_neg null]
    simp only [JobMemory.getJobHandle, number, seek, Option.bind_eq_bind, Option.bind_some]
    rw [if_pos missed]

theorem DistinctGroups.length_lt (distinct : memory.DistinctGroups lists)
    (nodup : (lists .currentJob).Nodup) : (lists .currentJob).length < 2147483648 := by
  have groups : ((lists .currentJob).map fun handle => (memory.behind handle).pgid).Nodup := by
    apply List.Nodup.map_on _ nodup
    exact distinct.separate
  have few := length_lt_of_positive groups (by
    intro pgid member
    obtain ⟨handle, listed, rfl⟩ := List.mem_map.mp member
    exact distinct.bounded handle listed) (by omega)
  rwa [List.length_map] at few

theorem getJobHandle_selects_iff (sound : memory.Sound lists)
    (distinct : memory.DistinctGroups lists) (command : List UInt8)
    (argument : Option (List UInt8)) :
    memory.Selects lists command argument ↔
      NarrowsApart (lists .currentJob).length argument := by
  have few := distinct.length_lt (sound.represents.nodup .currentJob)
  have index := handleIndex_eq command argument
  constructor
  · rintro ⟨printed, shown, -, refused⟩ number given
    obtain rfl := Option.some.inj (sound.doJobs.symm.trans shown)
    by_cases within : 1 ≤ number ∧ number ≤ (lists .currentJob).length
    · exact Or.inl within
    · have unlisted : ∀ other handle, numberGiven argument = some other →
          (other, handle) ∉ numbered 1 (lists .currentJob) := by
        intro other handle same member
        obtain rfl := Option.some.inj (given.symm.trans same)
        exact within (exists_numbered.mp ⟨handle, member⟩)
      have outcome := refused unlisted
      rw [given, Option.map_some] at index
      refine Or.inr ⟨fun inside => ?_, fun null => ?_⟩
      · obtain ⟨handle, member⟩ := exists_numbered.mpr inside
        obtain ⟨before, after, split, counted⟩ := mem_numbered.mp member
        obtain ⟨changed, found, -⟩ := sound.getJobHandle_number distinct split index counted
        simp [found] at outcome
      · have crashed := sound.getJobHandle_other index (by omega)
        rw [if_pos null] at crashed
        simp [crashed] at outcome
  · intro apart
    refine ⟨_, sound.doJobs, ?_, ?_⟩
    · intro number handle given member
      have within := exists_numbered.mp ⟨handle, member⟩
      obtain ⟨before, after, split, counted⟩ := mem_numbered.mp member
      have same : toInt (saturate number) = number := by
        rw [toInt_saturate]
        unfold FitsInt
        omega
      rw [given, Option.map_some, same] at index
      obtain ⟨changed, found, jobs, value, safe⟩ :=
        sound.getJobHandle_number distinct split index counted
      exact ⟨before, after, changed, split, found, jobs, value, safe⟩
    · intro unlisted
      cases given : numberGiven argument with
      | none =>
        rw [given, Option.map_none] at index
        exact Or.inl (by simp [JobMemory.getJobHandle, index])
      | some number =>
        have outside : ¬ (1 ≤ number ∧ number ≤ (lists .currentJob).length) := by
          intro within
          obtain ⟨handle, member⟩ := exists_numbered.mpr within
          exact unlisted number handle given member
        obtain ⟨beyond, null⟩ := (apart number given).resolve_left outside
        rw [given, Option.map_some] at index
        have missed := sound.getJobHandle_other index beyond
        rw [if_neg null] at missed
        exact Or.inr missed

def pairHandles : Memory JobList Nat where
  heads list := if list = .currentJob then 1 else 0
  nodes address :=
    if address = 1 then some { value := 100, next := 2 }
    else if address = 2 then some { value := 200, next := 0 }
    else none
  limit := 3
  null := rfl
  bounded address beyond := by
    rw [if_neg (by omega), if_neg (by omega)]

def pairJobs : JobMemory where
  handles := pairHandles
  jobs address :=
    if address = 100 then some { emptyJob with pgid := 7, pipelineSize := 1, stopped := true }
    else if address = 200 then some { emptyJob with pgid := 9, pipelineSize := 1 }
    else none

def pairLists (list : JobList) : List Nat :=
  if list = .currentJob then [1, 2] else []

theorem pairJobs_sound : pairJobs.Sound pairLists where
  represents := by
    constructor
    · intro name
      cases name <;> simp [pairLists, pairJobs, pairHandles, Memory.Chain]
    · intro name
      cases name <;> simp [pairLists]
    · intro name other different
      cases name <;> cases other <;> simp [pairLists] at different ⊢
  once := by decide
  live := by
    intro list handle member
    cases list <;> simp [pairLists] at member
    rcases member with rfl | rfl <;> decide

theorem pairJobs_distinct : pairJobs.DistinctGroups pairLists where
  separate := by decide
  bounded := by decide

theorem getJobHandle_selects_second :
    pairJobs.Selects pairLists [102, 103] (some [50]) := by
  apply (getJobHandle_selects_iff pairJobs_sound pairJobs_distinct [102, 103] (some [50])).mpr
  intro number given
  obtain rfl : 2 = number := Option.some.inj given
  exact Or.inl (by decide)

theorem getJobHandle_selects_fails :
    ¬ ∀ memory lists command argument, JobMemory.Sound memory lists →
      memory.DistinctGroups lists → memory.Selects lists command argument := by
  intro claim
  have selects := claim initial (fun _ => []) [102, 103] (some [48]) initial_sound
    ⟨by simp, by simp⟩
  have crashed : initial.getJobHandle (argumentVector [102, 103] (some [48]))
      (argumentCount (some [48])) = none := by rfl
  obtain ⟨printed, shown, -, refused⟩ := selects
  obtain rfl := Option.some.inj (initial_sound.doJobs.symm.trans shown)
  simp [numbered, crashed] at refused

end JobMemory

end Akiso.Shell
