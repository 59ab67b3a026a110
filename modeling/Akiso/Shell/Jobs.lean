import Mathlib.Data.List.Nodup
import Mathlib.Data.List.Perm.Subperm
import Mathlib.Logic.Function.Basic
import Akiso.Shell.Parser

set_option autoImplicit false

namespace Akiso.Shell

open Strtol

-- A job_handle is the job it points to; the address of a job stands for the job itself.
abbrev JobId := Nat

inductive Access where
  | used (job : JobId)
  | destroyed (job : JobId)
  deriving DecidableEq, Repr

def Access.job : Access → JobId
  | .used job => job
  | .destroyed job => job

def LifetimeSafe : List Access → Prop
  | [] => True
  | access :: older => .destroyed access.job ∉ older ∧ LifetimeSafe older

instance decidableLifetimeSafe : ∀ accesses, Decidable (LifetimeSafe accesses)
  | [] => isTrue True.intro
  | access :: older =>
    have := decidableLifetimeSafe older
    inferInstanceAs (Decidable (.destroyed access.job ∉ older ∧ LifetimeSafe older))

def removeJobHandle (jobs : JobId → Job) (pid : Nat) : List JobId → Option JobId × List JobId
  | [] => (none, [])
  | job :: rest =>
    if (jobs job).pgid = pid ∨ pid = 0 then (some job, rest)
    else ((removeJobHandle jobs pid rest).1, job :: (removeJobHandle jobs pid rest).2)

def examined (jobs : JobId → Job) (pid : Nat) : List JobId → List JobId
  | [] => []
  | job :: rest =>
    if (jobs job).pgid = pid ∨ pid = 0 then [job] else job :: examined jobs pid rest

-- none is the store through a NULL argument in front of a list that is not empty.
def addFirst : Option JobId → List JobId → Option (List JobId)
  | some job, list => some (job :: list)
  | none, [] => some []
  | none, _ :: _ => none

-- pipeline_size is a size_t of 64 bits, and handle_chld compares it as an int of 32.
def sizeDecrement (size : Nat) : Nat :=
  (size + 18446744073709551615) % 18446744073709551616

def sizeIsZero (size : Nat) : Prop :=
  size % 4294967296 = 0

instance (size : Nat) : Decidable (sizeIsZero size) :=
  inferInstanceAs (Decidable (size % 4294967296 = 0))

inductive Lookup where
  | handle (job : JobId) (rest : List JobId)
  | badArguments
  | noSuchJob
  | notRemoved
  | nullDereference
  deriving DecidableEq, Repr

def seekHandle (index : Int) : List JobId → Int → Int × Option JobId
  | [], count => (count, none)
  | job :: rest, count =>
    if count + 1 = index then (count + 1, some job) else seekHandle index rest (count + 1)

def handleIndex (arguments : List (Option (List UInt8))) (argc : Nat) : Option Int :=
  if argc > 2 then none
  else if argc > 1 then
    match arguments[1]? with
    | some (some text) =>
      if text = [] ∨ (strtol text).2 ≠ [] then none else some (toInt (strtol text).1)
    | _ => none
  else some 1

def getJobHandle (jobs : JobId → Job) (currentJob : List JobId)
    (arguments : List (Option (List UInt8))) (argc : Nat) : Lookup :=
  match handleIndex arguments argc with
  | none => .badArguments
  | some index =>
    let sought := seekHandle index currentJob 0
    if sought.1 ≠ index then .noSuchJob
    else
      match sought.2 with
      | none => .nullDereference
      | some job =>
        let removal := removeJobHandle jobs (jobs job).pgid currentJob
        match removal.1 with
        | some removed => .handle removed removal.2
        | none => .notRemoved

theorem removeJobHandle_none {jobs : JobId → Job} {pid : Nat} {list : List JobId}
    (missing : (removeJobHandle jobs pid list).1 = none) :
    (removeJobHandle jobs pid list).2 = list := by
  induction list with
  | nil => rfl
  | cons job rest ih =>
    by_cases found : (jobs job).pgid = pid ∨ pid = 0
    next => simp [removeJobHandle, found] at missing
    next =>
      simp only [removeJobHandle, found, if_false] at missing ⊢
      rw [ih missing]

theorem removeJobHandle_some {jobs : JobId → Job} {pid : Nat} {list : List JobId} {job : JobId}
    (removed : (removeJobHandle jobs pid list).1 = some job) :
    ∃ before after, list = before ++ job :: after ∧
      (removeJobHandle jobs pid list).2 = before ++ after ∧
      ((jobs job).pgid = pid ∨ pid = 0) := by
  induction list with
  | nil => simp [removeJobHandle] at removed
  | cons head rest ih =>
    by_cases found : (jobs head).pgid = pid ∨ pid = 0
    next =>
      simp only [removeJobHandle, found, if_true, Option.some.injEq] at removed ⊢
      subst removed
      exact ⟨[], rest, rfl, rfl, found⟩
    next =>
      simp only [removeJobHandle, found, if_false] at removed ⊢
      obtain ⟨before, after, split, remaining, matched⟩ := ih removed
      refine ⟨head :: before, after, ?_, ?_, matched⟩
      next => simp [split]
      next => simp [remaining]

theorem removeJobHandle_isSome {jobs : JobId → Job} {pid : Nat} {list : List JobId} {job : JobId}
    (listed : job ∈ list) (matched : (jobs job).pgid = pid) :
    ∃ removed, (removeJobHandle jobs pid list).1 = some removed := by
  induction list with
  | nil => simp at listed
  | cons head rest ih =>
    by_cases found : (jobs head).pgid = pid ∨ pid = 0
    next => exact ⟨head, by simp [removeJobHandle, found]⟩
    next =>
      have later : job ∈ rest := by
        rcases List.mem_cons.mp listed with same | later
        · exact absurd (Or.inl (same ▸ matched)) found
        · exact later
      simpa [removeJobHandle, found] using ih later

theorem removeJobHandle_listed {jobs : JobId → Job} {list : List JobId} {job : JobId}
    (separate : ∀ one ∈ list, ∀ other ∈ list, (jobs one).pgid = (jobs other).pgid → one = other)
    (listed : job ∈ list) (positive : 0 < (jobs job).pgid) :
    ∃ before after, list = before ++ job :: after ∧
      removeJobHandle jobs (jobs job).pgid list = (some job, before ++ after) := by
  obtain ⟨removed, found⟩ := removeJobHandle_isSome listed rfl
  obtain ⟨before, after, split, kept, matched⟩ := removeJobHandle_some found
  have same : removed = job := by
    apply separate removed _ job listed
    · exact matched.resolve_right (by omega)
    · simp [split]
  subst same
  exact ⟨before, after, split, Prod.ext found kept⟩

theorem removeJobHandle_sublist (jobs : JobId → Job) (pid : Nat) (list : List JobId) :
    (removeJobHandle jobs pid list).2.Sublist list := by
  induction list with
  | nil => simp [removeJobHandle]
  | cons job rest ih =>
    by_cases found : (jobs job).pgid = pid ∨ pid = 0
    next => simp [removeJobHandle, found]
    next => simpa [removeJobHandle, found] using ih

theorem removeJobHandle_perm (jobs : JobId → Job) (pid : Nat) (list : List JobId) :
    ((removeJobHandle jobs pid list).1.toList ++ (removeJobHandle jobs pid list).2).Perm list := by
  cases removed : (removeJobHandle jobs pid list).1 with
  | none => simp [removeJobHandle_none removed]
  | some job =>
    obtain ⟨before, after, split, kept, _⟩ := removeJobHandle_some removed
    rw [kept, Option.toList_some, List.singleton_append]
    exact split ▸ List.perm_middle.symm

theorem removeJobHandle_rest (jobs : JobId → Job) (pid : Nat) {handle : JobId}
    (kept rest : List JobId) (matched : (jobs handle).pgid = pid) :
    ∃ removed before, removeJobHandle jobs pid (kept ++ handle :: rest) =
      (some removed, before ++ rest) := by
  induction kept with
  | nil => exact ⟨handle, [], by simp [removeJobHandle, matched]⟩
  | cons first kept ih =>
    by_cases here : (jobs first).pgid = pid ∨ pid = 0
    · exact ⟨first, kept ++ [handle], by simp [removeJobHandle, here]⟩
    · obtain ⟨removed, before, later⟩ := ih
      exact ⟨removed, first :: before, by simp [removeJobHandle, here, later]⟩

theorem examined_subset {jobs : JobId → Job} {pid : Nat} {list : List JobId} {job : JobId}
    (looked : job ∈ examined jobs pid list) : job ∈ list := by
  induction list with
  | nil => simp [examined] at looked
  | cons head rest ih =>
    by_cases found : (jobs head).pgid = pid ∨ pid = 0
    next =>
      simp only [examined, found, if_true, List.mem_singleton] at looked
      simp [looked]
    next =>
      simp only [examined, found, if_false, List.mem_cons] at looked
      exact List.mem_cons.mpr (looked.imp_right ih)

theorem getJobHandle_handle {jobs : JobId → Job} {currentJob rest : List JobId}
    {arguments : List (Option (List UInt8))} {argc : Nat} {job : JobId}
    (found : getJobHandle jobs currentJob arguments argc = .handle job rest) :
    ∃ before after, currentJob = before ++ job :: after ∧ rest = before ++ after := by
  unfold getJobHandle at found
  split at found
  next => simp at found
  next index _ =>
    dsimp only at found
    split at found
    next => simp at found
    next =>
      split at found
      next => simp at found
      next sought _ =>
        split at found
        next removed taken =>
          simp only [Lookup.handle.injEq] at found
          obtain ⟨before, after, split, kept, _⟩ := removeJobHandle_some taken
          exact ⟨before, after, found.1 ▸ split, found.2 ▸ kept⟩
        next => simp at found

theorem length_lt_of_positive {ids : List Nat} {bound : Nat} (nodup : ids.Nodup)
    (bounded : ∀ id ∈ ids, 0 < id ∧ id < bound) (some : 0 < bound) : ids.length < bound := by
  have fresh : (0 :: ids).Nodup := by
    apply List.nodup_cons.mpr ⟨_, nodup⟩
    intro zero
    exact absurd (bounded 0 zero).1 (Nat.lt_irrefl 0)
  have within : 0 :: ids ⊆ List.range bound := by
    intro id member
    apply List.mem_range.mpr
    rcases List.mem_cons.mp member with rfl | member
    · exact some
    · exact (bounded id member).2
  have few := (fresh.subperm within).length_le
  rwa [List.length_cons, List.length_range] at few

theorem sizeDecrement_succ {size : Nat} (bounded : size < 18446744073709551616) :
    sizeDecrement (size + 1) = size := by
  unfold sizeDecrement
  omega

theorem lifetimeSafe_used {accesses : List Access} (safe : LifetimeSafe accesses)
    (used : List JobId) (alive : ∀ job ∈ used, .destroyed job ∉ accesses) :
    LifetimeSafe (used.map .used ++ accesses) := by
  induction used with
  | nil => exact safe
  | cons job rest ih =>
    refine ⟨?_, ih fun other member => alive other (List.mem_cons_of_mem _ member)⟩
    simpa [Access.job] using alive job List.mem_cons_self

end Akiso.Shell
