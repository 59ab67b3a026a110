import Akiso.Shell.StageEnds
import Mathlib.Tactic.Tauto

set_option autoImplicit false

namespace Akiso.Shell

open Descriptors

variable {before table : Table OpenFile} {live : Set Nat}

-- A descriptor variable whose value, if close_pipe looks at it, is none of the shell's own numbers.
def Foreign (before : Table OpenFile) (fd : Int) : Prop :=
  ∀ number : Nat, fd = number → 0 < number → before number = none

theorem foreign_neg (before : Table OpenFile) {fd : Int} (negative : fd < 0) :
    Foreign before fd := by
  intro number same
  omega

theorem foreign_of_none {fd : Nat} (fresh : before fd = none) : Foreign before fd := by
  intro number same _
  exact Int.ofNat.inj same ▸ fresh

theorem closeEnd_extends (extended : Extends before table live) (zero : (before 0).isSome)
    {fd : Int} (foreign : Foreign before fd) :
    Extends before (closeEnd table fd).2.1 { number ∈ live | (number : Int) ≠ fd } ∧
      ((closeEnd table fd).2.2 = fd ∨ (closeEnd table fd).2.2 = -1) := by
  by_cases positive : 0 < fd
  next =>
    obtain ⟨number, rfl⟩ : ∃ number : Nat, fd = number := ⟨fd.toNat, by omega⟩
    cases present : table number with
    | none =>
      obtain ⟨outside, -⟩ := extended.free present
      have absent : close table (number : Int) = none := by simp [close, present]
      simp only [closeEnd, positive, if_true, absent, true_or, and_true]
      refine extended.congr fun other => ?_
      simp only [ne_eq, Int.natCast_inj, Set.mem_ofPred_eq, iff_self_and]
      rintro member rfl
      exact outside member
    | some descriptor =>
      rw [closeEnd_open (by omega) (by simp [present])]
      have closed := extended.update_none (foreign number rfl (by omega))
      refine ⟨closed.congr fun other => ?_, .inr rfl⟩
      simp only [Set.mem_sdiff, Set.mem_singleton_iff, ne_eq, Int.natCast_inj, Set.mem_ofPred_eq]
  next =>
    simp only [closeEnd, positive, if_false, true_or, and_true]
    refine extended.congr fun other => ?_
    simp only [ne_eq, Set.mem_ofPred_eq, iff_self_and]
    rintro member rfl
    have := extended.positive zero member
    omega

theorem closeEnd_live (extended : Extends before table live) (zero : (before 0).isSome)
    {fd : Nat} (member : fd ∈ live) :
    ∃ closed, closeEnd table fd = (true, closed, -1) ∧
      Extends before closed (live \ {fd}) := by
  refine ⟨_, closeEnd_open (extended.positive zero member) (extended.opened fd member), ?_⟩
  exact extended.update_none (extended.fresh fd member)

theorem closePipe_both (table : Table OpenFile) (fds : PipeFds) :
    (closePipe table fds 3).table = (closeEnd (closeEnd table fds.read).2.1 fds.write).2.1 ∧
      (closePipe table fds 3).fds.read = (closeEnd table fds.read).2.2 ∧
      (closePipe table fds 3).fds.write =
        (closeEnd (closeEnd table fds.read).2.1 fds.write).2.2 := by
  have low : Nat.testBit 3 0 = true := rfl
  have high : Nat.testBit 3 1 = true := rfl
  simp [closePipe, low, high]

def PipeFds.numbers (fds : PipeFds) : List Int := [fds.read, fds.write]

theorem closePipe_extends (extended : Extends before table live) (zero : (before 0).isSome)
    {fds : PipeFds} (foreign : ∀ fd ∈ fds.numbers, Foreign before fd) :
    Extends before (closePipe table fds 3).table { fd ∈ live | (fd : Int) ∉ fds.numbers } ∧
      ∀ fd ∈ (closePipe table fds 3).fds.numbers, fd ∈ fds.numbers ∨ fd = -1 := by
  obtain ⟨tableEq, readEq, writeEq⟩ := closePipe_both table fds
  obtain ⟨readClosed, readLeft⟩ := closeEnd_extends extended zero
    (foreign fds.read (by simp [PipeFds.numbers]))
  obtain ⟨writeClosed, writeLeft⟩ := closeEnd_extends readClosed zero
    (foreign fds.write (by simp [PipeFds.numbers]))
  constructor
  · rw [tableEq]
    refine writeClosed.congr fun fd => ?_
    simp [PipeFds.numbers, and_assoc]
  · simp only [PipeFds.numbers, readEq, writeEq, List.mem_cons, List.not_mem_nil, or_false]
    rintro fd (rfl | rfl)
    · exact readLeft.imp Or.inl id
    · exact writeLeft.imp Or.inr id

/-- create_pipe leaves two new ends and their numbers, or what it has found; only when pipe itself
fails does it leave the variable alone. -/
inductive Created (before : Table OpenFile) (live : Set Nat) (fds : PipeFds) (call : PipeCall)
    (creation : Creation) : Prop where
  | refused (answer : call = .refused) (failed : creation.succeeded = false)
    (kept : creation.fds = fds) (extended : Extends before creation.table live)
  | undone (answer : call ≠ .refused) (short : ¬ call.succeeds)
    (failed : creation.succeeded = false) (reset : creation.fds = noFds)
    (extended : Extends before creation.table live)
  | opened (read write : Nat) (answer : call.succeeds) (succeeded : creation.succeeded = true)
    (numbers : creation.fds = { read, write }) (different : read ≠ write)
    (readNew : read ∉ live) (writeNew : write ∉ live)
    (readFree : before read = none) (writeFree : before write = none)
    (extended : Extends before creation.table (insert read (insert write live)))

theorem createPipe_created (extended : Extends before table live) (zero : (before 0).isSome)
    {fds : PipeFds} {pipe : Pipe} {call : PipeCall} {creation : Creation}
    (made : createPipe table fds pipe call = some creation) :
    Created before live fds call creation := by
  cases call with
  | refused =>
    obtain rfl : { succeeded := false, table, fds } = creation := by simpa [createPipe] using made
    exact .refused rfl rfl rfl extended
  | opened read write fcntls =>
    unfold createPipe at made
    cases paired : openPair table (.readEnd pipe) (.writeEnd pipe) read write with
    | none => simp [paired] at made
    | some opened =>
      obtain ⟨⟨different, readNew, writeNew, readFree, writeFree⟩, both⟩ :=
        openPair_extends extended paired
      have flagged : Extends before (if 3 ≤ fcntls then setCloexec opened read else opened)
          (insert read (insert write live)) := by
        split
        next => exact both.setCloexec (by simp)
        next => exact both
      simp only [paired] at made
      generalize (if 3 ≤ fcntls then setCloexec opened read else opened) = opened at made flagged
      by_cases short : fcntls < 4
      next =>
        simp only [short, if_true, Option.some.injEq] at made
        subst made
        obtain ⟨readClosed, readLeft, kept⟩ := closeEnd_live flagged zero (by simp : read ∈ _)
        obtain ⟨writeClosed, writeLeft, undone⟩ := closeEnd_live kept zero
          (by simp [different.symm] : write ∈ _)
        obtain ⟨tableEq, readEq, writeEq⟩ := closePipe_both opened { read, write }
        have reset : (closePipe opened { read, write } 3).fds = noFds := by
          generalize (closePipe opened { read, write } 3).fds = fds at readEq writeEq
          cases fds
          simp_all [noFds]
        refine .undone (by simp) (by simpa [PipeCall.succeeds] using short) rfl reset ?_
        simp only [tableEq, readLeft, writeLeft]
        refine undone.congr fun fd => ?_
        simp only [Set.mem_sdiff, Set.mem_insert_iff, Set.mem_singleton_iff]
        constructor
        · rintro ⟨⟨same | same | member, notRead⟩, notWrite⟩ <;> simp_all
        · intro member
          refine ⟨⟨.inr (.inr member), ?_⟩, ?_⟩ <;> rintro rfl <;> contradiction
      next =>
        simp only [short, if_false, Option.some.injEq] at made
        subst made
        exact .opened read write (Nat.not_lt.mp short) rfl rfl different readNew writeNew readFree
          writeFree (flagged.setCloexec (by simp))

def Starter.holders (starter : Starter) : List Int :=
  starter.controlPipe.numbers ++ starter.pipefds.numbers ++ starter.errorPipe.numbers

theorem mem_holders (starter : Starter) (fd : Int) :
    fd ∈ starter.holders ↔
      fd = starter.controlPipe.read ∨ fd = starter.controlPipe.write ∨
      fd = starter.pipefds.read ∨ fd = starter.pipefds.write ∨
      fd = starter.errorPipe.read ∨ fd = starter.errorPipe.write := by
  simp [Starter.holders, PipeFds.numbers]

-- The error label restores the open set if it still has every number in one of its variables.
theorem abandonStart_openSet (starter : Starter) (extended : Extends before starter.table live)
    (zero : (before 0).isSome) (foreign : ∀ fd ∈ starter.holders, Foreign before fd) :
    openSet (abandonStart starter).table = openSet before ↔
      ∀ fd ∈ live, (fd : Int) ∈ starter.holders := by
  simp only [Starter.holders, List.mem_append] at foreign ⊢
  have control := (closePipe_extends extended zero fun fd held => foreign fd (.inl (.inl held))).1
  have stage := (closePipe_extends control zero fun fd held => foreign fd (.inl (.inr held))).1
  have error := (closePipe_extends stage zero fun fd held => foreign fd (.inr held)).1
  refine error.openSet_eq_iff.trans ?_
  simp only [Set.eq_empty_iff_forall_notMem, Set.mem_ofPred_eq]
  constructor
  · intro none fd member
    have out := none fd
    tauto
  · rintro each fd ⟨⟨⟨member, notControl⟩, notStage⟩, notError⟩
    have held := each fd member
    tauto

variable {starter : Starter} {index : Nat} {last : Bool} {calls : StageCalls}

theorem startStage_cases {progress : Progress}
    (ran : startStage starter index last calls = some progress) :
    ∃ stage, createStagePipe starter index last calls.stagePipe = some stage ∧
      (stage.succeeded = false ∧
          progress = .failed { starter with table := stage.table, pipefds := stage.fds } ∨
        stage.succeeded = true ∧ ∃ error,
          createPipe stage.table starter.errorPipe (.error index) calls.errorPipe = some error ∧
          ((error.succeeded = false ∨ calls.forked = false) ∧
              progress = .failed { starter with
                table := error.table, pipefds := stage.fds, errorPipe := error.fds } ∨
            error.succeeded = true ∧ calls.forked = true ∧ ∃ children,
              progress = parentStage { starter with
                table := error.table, pipefds := stage.fds, errorPipe := error.fds, children }
                last calls.reported)) := by
  simp only [startStage, Option.bind_eq_bind, Option.bind_eq_some_iff] at ran
  obtain ⟨stage, stageMade, ran⟩ := ran
  refine ⟨stage, stageMade, ?_⟩
  cases made : stage.succeeded with
  | false => exact .inl ⟨rfl, by simpa [made] using ran.symm⟩
  | true =>
    simp only [made, Bool.not_true, Bool.false_eq_true, if_false, Option.bind_eq_some_iff] at ran
    obtain ⟨error, errorMade, ran⟩ := ran
    refine .inr ⟨rfl, error, errorMade, ?_⟩
    cases succeeded : error.succeeded <;> cases forked : calls.forked <;>
      simp only [succeeded, forked, Bool.not_true, Bool.not_false, Bool.or_true, Bool.or_false,
        Bool.false_eq_true, if_true, if_false, Option.some.injEq] at ran
    all_goals first
      | exact .inl ⟨by simp, ran.symm⟩
      | exact .inr ⟨rfl, rfl, _, ran.symm⟩

theorem parentStage_closings {closed narrowed reported settled : Table OpenFile} {prev : Int}
    (first : closeEnd starter.table starter.prevfd = (true, closed, prev))
    (second : if last then narrowed = closed
      else closeEnd closed starter.pipefds.write = (true, narrowed, -1))
    (third : closeEnd narrowed starter.errorPipe.write = (true, reported, -1))
    (fourth : closeEnd reported starter.errorPipe.read = (true, settled, -1)) (told : Bool) :
    parentStage starter last told =
      let parent := { starter with
        table := reported
        prevfd := if last then prev else starter.pipefds.read
        pipefds := if last then starter.pipefds else { starter.pipefds with write := -1 }
        errorPipe := { starter.errorPipe with write := -1 } }
      if starter.first then
        .going { parent with firstErrorPipeRead := starter.errorPipe.read, first := false }
      else if told then .failed parent
      else .going { parent with table := settled, errorPipe := noFds, first := false } := by
  cases last with
  | true =>
    simp only [if_true] at second
    subst second
    cases initial : starter.first <;>
      simp [parentStage, closePipe_read, closePipe_write, first, third, fourth, initial, noFds]
  | false =>
    simp only [Bool.false_eq_true, if_false] at second
    cases initial : starter.first <;>
      simp [parentStage, closePipe_read, closePipe_write, first, second, third, fourth, initial,
        noFds]

theorem noFds_foreign (before : Table OpenFile) : ∀ fd ∈ noFds.numbers, Foreign before fd := by
  intro fd held
  obtain rfl : fd = -1 := by simpa [PipeFds.numbers, noFds] using held
  exact foreign_neg before (by decide)

theorem half_foreign {read : Nat} (fresh : before read = none) :
    ∀ fd ∈ PipeFds.numbers { read, write := -1 }, Foreign before fd := by
  simp only [PipeFds.numbers, List.mem_cons, List.not_mem_nil, or_false]
  rintro fd (rfl | rfl)
  · exact foreign_of_none fresh
  · exact foreign_neg before (by decide)

theorem pair_foreign {read write : Nat} (readFresh : before read = none)
    (writeFresh : before write = none) :
    ∀ fd ∈ PipeFds.numbers { read, write }, Foreign before fd := by
  simp only [PipeFds.numbers, List.mem_cons, List.not_mem_nil, or_false]
  rintro fd (rfl | rfl)
  · exact foreign_of_none readFresh
  · exact foreign_of_none writeFresh

theorem holders_foreign (starter : Starter)
    (control : ∀ fd ∈ starter.controlPipe.numbers, Foreign before fd)
    (stage : ∀ fd ∈ starter.pipefds.numbers, Foreign before fd)
    (error : ∀ fd ∈ starter.errorPipe.numbers, Foreign before fd) :
    ∀ fd ∈ starter.holders, Foreign before fd := by
  simp only [Starter.holders, List.mem_append]
  rintro fd ((held | held) | held)
  · exact control fd held
  · exact stage fd held
  · exact error fd held

theorem control_foreign {controlRead controlWrite : Nat}
    (control : starter.controlPipe = { read := controlRead, write := controlWrite })
    (extended : Extends before table live) (reads : controlRead ∈ live)
    (writes : controlWrite ∈ live) : ∀ fd ∈ starter.controlPipe.numbers, Foreign before fd := by
  rw [control]
  exact pair_foreign (extended.fresh controlRead reads) (extended.fresh controlWrite writes)

end Akiso.Shell
