import Akiso.Shell.LaterStages
import Akiso.Shell.Wiring

set_option autoImplicit false

namespace Akiso.Shell

open Descriptors

variable {before : Table OpenFile} {starter : Starter} {controlRead controlWrite report : Nat}

theorem Ended.finishStart (ended : Ended before starter controlRead controlWrite report)
    (zero : (before 0).isSome) (reported : Bool) :
    if reported then ∃ failed, finishStart starter true = .failed failed ∧
      (openSet (abandonStart failed).table = openSet before ↔ starter.errorPipe ≠ noFds)
    else ∃ finished, finishStart starter false = .going finished ∧
      openSet finished.table = openSet before := by
  obtain ⟨extended, control, stage, told, error, distinct⟩ := ended
  simp only [List.nodup_cons, List.mem_cons, List.not_mem_nil, or_false, not_or,
    not_false_eq_true, and_true, List.nodup_nil] at distinct
  have reportFresh := extended.fresh report (by simp)
  have controlForeign := control_foreign control extended (by simp) (by simp)
  have errorForeign : ∀ fd ∈ starter.errorPipe.numbers, Foreign before fd := by
    rcases error with half | none
    · exact half ▸ half_foreign reportFresh
    · exact none ▸ noFds_foreign before
  obtain ⟨afterControl, controlLeft⟩ := closePipe_extends extended zero controlForeign
  obtain ⟨afterStage, stageLeft⟩ := closePipe_extends afterControl zero fun fd held =>
    (stage fd held).1
  have remaining : Extends before _ {report} := afterStage.congr fun fd => by
    simp only [Set.mem_ofPred_eq, Set.mem_insert_iff, Set.mem_singleton_iff, control,
      PipeFds.numbers, List.mem_cons, List.not_mem_nil, or_false]
    constructor
    · grind
    · rintro rfl
      exact ⟨by grind, fun held => (stage fd (by simpa [PipeFds.numbers] using held)).2 rfl⟩
  cases reported with
  | true =>
    simp only [if_true]
    refine ⟨_, rfl, ?_⟩
    have lost : ∀ fd ∈ starter.controlPipe.numbers ++ starter.pipefds.numbers ++ [-1],
        fd ≠ (report : Int) := by
      simp only [List.mem_append]
      rintro fd ((held | held) | held)
      · simp only [control, PipeFds.numbers, List.mem_cons, List.not_mem_nil, or_false] at held
        omega
      · exact (stage fd held).2
      · simp only [List.mem_singleton] at held
        omega
    refine Iff.trans (abandonStart_openSet _ remaining zero ?_) ?_
    · refine holders_foreign _ ?_ ?_ errorForeign
      · exact fun fd held => (controlLeft fd held).elim (controlForeign fd) fun none =>
          foreign_neg before (by omega)
      · exact fun fd held => (stageLeft fd held).elim (fun held => (stage fd held).1) fun none =>
          foreign_neg before (by omega)
    · simp only [Set.mem_singleton_iff, forall_eq, Starter.holders, List.mem_append]
      rcases error with half | none
      · exact iff_of_true (.inr (by simp [half, PipeFds.numbers])) (by simp [half, noFds])
      · refine iff_of_false ?_ (fun other => other none)
        rintro ((held | held) | held)
        · exact lost report (by rcases controlLeft _ held with held | held <;> simp [held]) rfl
        · exact lost report (by rcases stageLeft _ held with held | held <;> simp [held]) rfl
        · simp [none, noFds, PipeFds.numbers] at held
  | false =>
    simp only [Bool.false_eq_true, if_false]
    obtain ⟨closed, done, nothing⟩ := closeEnd_live remaining zero (by simp : report ∈ _)
    have empty := (closePipe_extends nothing zero errorForeign).1
    refine ⟨_, rfl, ?_⟩
    have same : Extends before _ ∅ := empty.congr fun fd => by simp
    simpa [closePipe_read, told, done] using same.openSet_eq_iff.mpr rfl

-- When the parent ends with the descriptors it began with: the control pipe cannot be made, the
-- first iteration does not get to its end, the job has one stage, pipe itself fails as the first
-- call of the second iteration, or nothing fails at all.
def Tidy (controlCall : PipeCall) (stages : List StageCalls) (reported : Bool) : Prop :=
  ¬ controlCall.succeeds ∨
    match stages with
    | [] => True
    | first :: rest =>
      ¬ first.Starts (rest = []) ∨
        match rest with
        | [] => True
        | second :: more =>
          second.firstPipe (more = []) = .refused ∨ AllSucceed (second :: more) ∧ reported = false

theorem fresh_beginStart (zero : (before 0).isSome) {controlCall : PipeCall} {creation : Creation}
    (made : createPipe before noFds .control controlCall = some creation) :
    if creation.succeeded then controlCall.succeeds ∧ ∃ controlRead controlWrite,
      Fresh before (beginStart creation) controlRead controlWrite
    else ¬ controlCall.succeeds ∧ openSet creation.table = openSet before := by
  rcases (createPipe_created (Extends.refl before) zero made).of_noFds with
    ⟨short, failed, -, extended⟩ | ⟨answer, succeeded, read, write, numbers, different, -, -, -, -,
      extended⟩
  · simpa [failed, short] using extended.openSet_eq_iff.mpr rfl
  · simp only [succeeded, if_true, answer, true_and]
    refine ⟨read, write, ?_, numbers, rfl, rfl, rfl, rfl, different⟩
    exact extended.congr fun fd => by simp

theorem startJobInternal_tidy (table : Table OpenFile) (zero : (table 0).isSome)
    (controlCall : PipeCall) (stages : List StageCalls) (nonempty : stages ≠ []) (reported : Bool)
    (status : Int) (after : Table OpenFile)
    (ran : startJobInternal table controlCall stages reported = some (status, after)) :
    openSet after = openSet table ↔ Tidy controlCall stages reported := by
  simp only [startJobInternal, Option.bind_eq_bind, Option.bind_eq_some_iff] at ran
  obtain ⟨creation, created, ran⟩ := ran
  have begun := fresh_beginStart zero created
  cases made : creation.succeeded with
  | false =>
    simp only [made, Bool.false_eq_true, if_false] at begun ran
    obtain ⟨-, rfl⟩ : (-1 : Int) = status ∧ creation.table = after := by simpa using ran
    exact iff_of_true begun.2 (.inl begun.1)
  | true =>
    simp only [made, if_true, Option.bind_eq_some_iff] at begun ran
    obtain ⟨control, controlRead, controlWrite, fresh⟩ := begun
    obtain ⟨progress, looped, ran⟩ := ran
    cases stages with
    | nil => exact absurd rfl nonempty
    | cons first rest =>
      simp only [startStages, Option.bind_eq_bind, Option.bind_eq_some_iff] at looped
      obtain ⟨middle, iterated, looped⟩ := looped
      rcases fresh.startStage zero iterated with
        ⟨starts, next, report, rfl, half, between⟩ | ⟨short, failed, rfl, restored⟩
      · have another : next.errorPipe ≠ noFds := by simp [half, noFds]
        simp only [Tidy, control, starts, not_true_eq_false, false_or]
        cases rest with
        | nil =>
          obtain rfl : Progress.going next = progress := by simpa [startStages] using looped
          have finish := Ended.finishStart (by simpa using between) zero reported
          cases reported with
          | true =>
            obtain ⟨failed, finishing, restored⟩ := finish
            simp only [finishing, Option.some.injEq, Prod.mk.injEq] at ran
            exact iff_of_true (ran.2 ▸ restored.mpr another) trivial
          | false =>
            obtain ⟨finished, finishing, restored⟩ := finish
            simp only [finishing, Option.some.injEq, Prod.mk.injEq] at ran
            exact iff_of_true (ran.2 ▸ restored) trivial
        | cons second more =>
          obtain ⟨upstream, between⟩ : ∃ upstream,
              Between table next controlRead controlWrite upstream report := by simpa using between
          dsimp only at looped ⊢
          rcases between.startStages more zero looped with
            ⟨all, last, rfl, cleared, ended⟩ | ⟨some, failed, rfl, leaks⟩
          · have finish := ended.finishStart zero reported
            cases reported with
            | true =>
              obtain ⟨failed, finishing, restored⟩ := finish
              simp only [finishing, Option.some.injEq, Prod.mk.injEq] at ran
              refine iff_of_false (fun same => restored.mp (ran.2 ▸ same) cleared) ?_
              rintro (refused | ⟨-, quiet⟩)
              · exact all.1.firstPipe refused
              · simp at quiet
            | false =>
              obtain ⟨finished, finishing, restored⟩ := finish
              simp only [finishing, Option.some.injEq, Prod.mk.injEq] at ran
              exact iff_of_true (ran.2 ▸ restored) (.inr ⟨all, rfl⟩)
          · simp only [Option.some.injEq, Prod.mk.injEq] at ran
            rw [← ran.2, leaks]
            constructor
            · exact fun both => .inl both.2
            · rintro (refused | ⟨all, -⟩)
              · exact ⟨another, refused⟩
              · exact absurd all some
      · obtain rfl : Progress.failed failed = progress := by simpa using looped
        obtain ⟨-, rfl⟩ : (-1 : Int) = status ∧ (abandonStart failed).table = after := by
          simpa using ran
        exact iff_of_true restored (.inr (.inl short))

theorem startJobInternal_tidy_threeStages :
    ∃ status after, startJobInternal terminalShell.table (.opened 3 4 4) threeStages false =
        some (status, after) ∧ openSet after = openSet terminalShell.table := by
  have answered :
      (startJobInternal terminalShell.table (.opened 3 4 4) threeStages false).isSome := by
    decide +kernel
  obtain ⟨⟨status, after⟩, ran⟩ := Option.isSome_iff_exists.mp answered
  have succeed : AllSucceed threeStages.tail :=
    ⟨⟨fun _ => Nat.le_refl 4, Nat.le_refl 4, rfl, rfl⟩,
      ⟨fun more => by simp at more, Nat.le_refl 4, rfl, rfl⟩, True.intro⟩
  refine ⟨status, after, ran, ?_⟩
  exact (startJobInternal_tidy terminalShell.table (by decide) _ threeStages (by simp [threeStages])
    false status after ran).mpr (.inr (.inr (.inr ⟨succeed, rfl⟩)))

def secondFails : List StageCalls :=
  [{ stagePipe := .opened 5 6 4, errorPipe := .opened 7 8 4, forked := true, reported := false },
    { stagePipe := .refused, errorPipe := .opened 6 8 4, forked := true, reported := true }]

theorem startJobInternal_leaks :
    ¬ ∀ table : Table OpenFile, (table 0).isSome → ∀ controlCall stages, stages ≠ [] →
      ∀ reported status after,
        startJobInternal table controlCall stages reported = some (status, after) →
        openSet after = openSet table := by
  intro always
  have answered : (startJobInternal terminalShell.table (.opened 3 4 4) secondFails false).map
      (fun result => (result.2 7).isSome) = some true := by
    decide +kernel
  obtain ⟨⟨status, after⟩, ran, opened⟩ := Option.map_eq_some_iff.mp answered
  have same :=
    always terminalShell.table (by decide) _ secondFails (by simp [secondFails]) _ _ _ ran
  have inside : 7 ∈ openSet terminalShell.table := same ▸ opened
  simp [openSet, terminalShell] at inside

end Akiso.Shell
