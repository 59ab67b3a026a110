import Akiso.Shell.Closings
import Mathlib.Tactic.Tauto

set_option autoImplicit false

namespace Akiso.Shell

open Descriptors

variable {before : Table OpenFile} {live : Set Nat} {starter : Starter} {index : Nat} {last : Bool}
  {calls : StageCalls}

structure StageCalls.Starts (calls : StageCalls) (last : Bool) : Prop where
  stagePipe : last = false → calls.stagePipe.succeeds
  errorPipe : calls.errorPipe.succeeds
  forked : calls.forked = true

def StageCalls.firstPipe (calls : StageCalls) (last : Bool) : PipeCall :=
  if last then calls.errorPipe else calls.stagePipe

structure Fresh (before : Table OpenFile) (starter : Starter) (controlRead controlWrite : Nat) :
    Prop where
  extended : Extends before starter.table {controlRead, controlWrite}
  control : starter.controlPipe = { read := controlRead, write := controlWrite }
  stage : starter.pipefds = noFds
  error : starter.errorPipe = noFds
  prev : starter.prevfd = -2
  first : starter.first = true
  distinct : controlRead ≠ controlWrite

/-- The start of a later iteration: the read end for the next stage is in two variables, the first
stage's error pipe in one of its own, and in the error pipe variable until that is used again. -/
structure Between (before : Table OpenFile) (starter : Starter)
    (controlRead controlWrite upstream report : Nat) : Prop where
  extended : Extends before starter.table {controlRead, controlWrite, upstream, report}
  control : starter.controlPipe = { read := controlRead, write := controlWrite }
  stage : starter.pipefds = { read := upstream, write := -1 }
  prev : starter.prevfd = upstream
  told : starter.firstErrorPipeRead = report
  first : starter.first = false
  error : starter.errorPipe = { read := report, write := -1 } ∨ starter.errorPipe = noFds
  distinct : [controlRead, controlWrite, upstream, report].Nodup

/-- The end of the loop. The stage pipe variable may still have a number that is closed. -/
structure Ended (before : Table OpenFile) (starter : Starter)
    (controlRead controlWrite report : Nat) : Prop where
  extended : Extends before starter.table {controlRead, controlWrite, report}
  control : starter.controlPipe = { read := controlRead, write := controlWrite }
  stage : ∀ fd ∈ starter.pipefds.numbers, Foreign before fd ∧ fd ≠ report
  told : starter.firstErrorPipeRead = report
  error : starter.errorPipe = { read := report, write := -1 } ∨ starter.errorPipe = noFds
  distinct : [controlRead, controlWrite, report].Nodup

variable {controlRead controlWrite upstream report : Nat}

theorem createStagePipe_cases (extended : Extends before starter.table live)
    (zero : (before 0).isSome) {call : PipeCall} {stage : Creation}
    (made : createStagePipe starter index last call = some stage) :
    (last = true ∧ stage = { succeeded := true, table := starter.table, fds := starter.pipefds }) ∨
      last = false ∧ Created before live starter.pipefds call stage := by
  cases last with
  | true => exact .inl ⟨rfl, by simpa [createStagePipe] using made.symm⟩
  | false =>
    simp only [createStagePipe, Bool.false_eq_true, if_false] at made
    exact .inr ⟨rfl, createPipe_created extended zero made⟩

theorem Created.of_noFds {call : PipeCall} {creation : Creation}
    (created : Created before live noFds call creation) :
    (¬ call.succeeds ∧ creation.succeeded = false ∧ creation.fds = noFds ∧
        Extends before creation.table live) ∨
      call.succeeds ∧ creation.succeeded = true ∧ ∃ read write : Nat,
        creation.fds = { read, write } ∧ read ≠ write ∧ read ∉ live ∧ write ∉ live ∧
        before read = none ∧ before write = none ∧
        Extends before creation.table (insert read (insert write live)) := by
  cases created with
  | refused answer failed kept extended =>
    exact .inl ⟨by simp [answer, PipeCall.succeeds], failed, kept, extended⟩
  | undone answer short failed reset extended => exact .inl ⟨short, failed, reset, extended⟩
  | opened read write answer succeeded numbers different readNew writeNew readFree writeFree
      extended =>
    exact .inr ⟨answer, succeeded, read, write, numbers, different, readNew, writeNew, readFree,
      writeFree, extended⟩

theorem fork_restores {stage error : Creation}
    (controlForeign : ∀ fd ∈ starter.controlPipe.numbers, Foreign before fd)
    (stageForeign : ∀ fd ∈ stage.fds.numbers, Foreign before fd)
    (extended : Extends before stage.table live) (zero : (before 0).isSome)
    (held : ∀ fd ∈ live, (fd : Int) ∈ starter.controlPipe.numbers ++ stage.fds.numbers)
    (made : createPipe stage.table noFds (.error index) calls.errorPipe = some error)
    (failing : error.succeeded = false ∨ calls.forked = false) :
    ¬ (calls.errorPipe.succeeds ∧ calls.forked = true) ∧
      openSet (abandonStart { starter with
        table := error.table, pipefds := stage.fds, errorPipe := error.fds }).table =
        openSet before := by
  have restores (live : Set Nat) (extended : Extends before error.table live)
      (errorForeign : ∀ fd ∈ error.fds.numbers, Foreign before fd)
      (held : ∀ fd ∈ live, (fd : Int) ∈
        starter.controlPipe.numbers ++ stage.fds.numbers ++ error.fds.numbers) :=
    (abandonStart_openSet { starter with
      table := error.table, pipefds := stage.fds, errorPipe := error.fds } extended zero
      (holders_foreign _ controlForeign stageForeign errorForeign)).mpr held
  rcases (createPipe_created extended zero made).of_noFds with
    ⟨short, -, reset, extended⟩ |
    ⟨-, succeeded, read, write, numbers, -, -, -, readFree, writeFree, extended⟩
  · refine ⟨fun both => short both.1, restores live extended ?_ ?_⟩
    · rw [reset]
      exact noFds_foreign before
    · exact fun fd member => List.mem_append_left _ (held fd member)
  · have unforked : calls.forked = false := failing.resolve_left (by simp [succeeded])
    refine ⟨fun both => by simp [both.2] at unforked, restores _ extended ?_ ?_⟩
    · rw [numbers]
      exact pair_foreign readFree writeFree
    · rintro fd (rfl | rfl | member)
      · simp [numbers, PipeFds.numbers]
      · simp [numbers, PipeFds.numbers]
      · exact List.mem_append_left _ (held fd member)

theorem parentStage_extends (starter : Starter) (last : Bool)
    (extended : Extends before starter.table live) (zero : (before 0).isSome)
    {errorRead errorWrite : Nat}
    (error : starter.errorPipe = { read := errorRead, write := errorWrite })
    (reads : errorRead ∈ live) (writes : errorWrite ∈ live) (different : errorRead ≠ errorWrite)
    (prev : starter.prevfd = -2 ∨ ∃ upstream ∈ live, starter.prevfd = (upstream : Int) ∧
      upstream ≠ errorRead ∧ upstream ≠ errorWrite)
    (stage : last = false → ∃ write ∈ live, starter.pipefds.write = (write : Int) ∧
      starter.prevfd ≠ write ∧ write ≠ errorRead ∧ write ≠ errorWrite) (told : Bool) :
    ∃ reported settled prevfd,
      Extends before reported { fd ∈ live | (fd : Int) ≠ starter.prevfd ∧
        (last = false → (fd : Int) ≠ starter.pipefds.write) ∧ fd ≠ errorWrite } ∧
      Extends before settled { fd ∈ live | (fd : Int) ≠ starter.prevfd ∧
        (last = false → (fd : Int) ≠ starter.pipefds.write) ∧ fd ≠ errorWrite ∧ fd ≠ errorRead } ∧
      parentStage starter last told =
        let parent := { starter with
          table := reported
          prevfd := if last then prevfd else starter.pipefds.read
          pipefds := if last then starter.pipefds else { starter.pipefds with write := -1 }
          errorPipe := { read := (errorRead : Int), write := -1 } }
        if starter.first then .going { parent with firstErrorPipeRead := errorRead, first := false }
        else if told then .failed parent
        else .going { parent with table := settled, errorPipe := noFds, first := false } := by
  obtain ⟨closed, prevfd, first, closedExtends⟩ : ∃ closed prevfd,
      closeEnd starter.table starter.prevfd = (true, closed, prevfd) ∧
      Extends before closed { fd ∈ live | (fd : Int) ≠ starter.prevfd } := by
    rcases prev with none | ⟨upstream, member, same, -⟩
    · rw [none]
      refine ⟨starter.table, -2, by simp [closeEnd], extended.congr fun fd => ?_⟩
      simp only [Set.mem_ofPred_eq, iff_self_and]
      omega
    · obtain ⟨closed, done, extended⟩ := closeEnd_live extended zero member
      rw [same]
      exact ⟨closed, -1, done, extended.congr fun fd => by
        simp only [Set.mem_sdiff, Set.mem_singleton_iff, ne_eq, Int.natCast_inj, Set.mem_ofPred_eq]⟩
  have away : ∀ fd ∈ ({errorRead, errorWrite} : Set Nat), (fd : Int) ≠ starter.prevfd := by
    rcases prev with none | ⟨upstream, -, same, notRead, notWrite⟩
    · intro fd _
      omega
    · rintro fd (rfl | rfl) <;> omega
  obtain ⟨narrowed, second, narrowedExtends⟩ : ∃ narrowed,
      (if last then narrowed = closed
        else closeEnd closed starter.pipefds.write = (true, narrowed, -1)) ∧
      Extends before narrowed { fd ∈ live | (fd : Int) ≠ starter.prevfd ∧
        (last = false → (fd : Int) ≠ starter.pipefds.write) } := by
    cases last with
    | true => exact ⟨closed, rfl, closedExtends.congr fun fd => by simp⟩
    | false =>
      obtain ⟨write, member, same, notPrev, -⟩ := stage rfl
      obtain ⟨narrowed, done, extended⟩ := closeEnd_live closedExtends zero
        (show write ∈ { fd ∈ live | (fd : Int) ≠ starter.prevfd } from ⟨member, notPrev.symm⟩)
      rw [same]
      refine ⟨narrowed, done, extended.congr fun fd => ?_⟩
      simp only [Set.mem_sdiff, Set.mem_ofPred_eq, Set.mem_singleton_iff, ne_eq, Int.natCast_inj,
        forall_const]
      tauto
  have apart : ∀ fd ∈ ({errorRead, errorWrite} : Set Nat), last = false →
      (fd : Int) ≠ starter.pipefds.write := by
    intro fd member more
    obtain ⟨write, -, same, -, notRead, notWrite⟩ := stage more
    rcases member with rfl | rfl <;> omega
  obtain ⟨reported, third, reportedExtends⟩ := closeEnd_live narrowedExtends zero
    ⟨writes, away errorWrite (by simp), apart errorWrite (by simp)⟩
  obtain ⟨settled, fourth, settledExtends⟩ := closeEnd_live reportedExtends zero
    ⟨⟨reads, away errorRead (by simp), apart errorRead (by simp)⟩, different⟩
  refine ⟨reported, settled, prevfd, reportedExtends.congr fun fd => ?_,
    settledExtends.congr fun fd => ?_, ?_⟩
  · simp only [Set.mem_sdiff, Set.mem_ofPred_eq, Set.mem_singleton_iff]
    tauto
  · simp only [Set.mem_sdiff, Set.mem_ofPred_eq, Set.mem_singleton_iff]
    tauto
  · have reporting : closeEnd narrowed starter.errorPipe.write = (true, reported, -1) := by
      rw [error]
      exact third
    have settling : closeEnd reported starter.errorPipe.read = (true, settled, -1) := by
      rw [error]
      exact fourth
    rw [parentStage_closings first second reporting settling, error]

theorem Fresh.startStage (fresh : Fresh before starter controlRead controlWrite)
    (zero : (before 0).isSome) {progress : Progress}
    (ran : startStage starter index last calls = some progress) :
    (calls.Starts last ∧ ∃ next, ∃ report : Nat, progress = .going next ∧
        next.errorPipe = { read := report, write := -1 } ∧
        if last then Ended before next controlRead controlWrite report
        else ∃ upstream, Between before next controlRead controlWrite upstream report) ∨
      (¬ calls.Starts last ∧ ∃ failed, progress = .failed failed ∧
        openSet (abandonStart failed).table = openSet before) := by
  obtain ⟨extended, control, noStage, noError, prev, first, distinct⟩ := fresh
  have controlForeign := control_foreign control extended (by simp) (by simp)
  have held : ∀ fd ∈ ({controlRead, controlWrite} : Set Nat),
      (fd : Int) ∈ starter.controlPipe.numbers := by
    rintro fd (rfl | rfl) <;> simp [control, PipeFds.numbers]
  obtain ⟨stage, stageMade, ran⟩ := startStage_cases ran
  have staged := createStagePipe_cases extended zero stageMade
  rw [noStage] at staged
  obtain ⟨unmade, rfl⟩ | ⟨made, error, errorMade, ran⟩ := ran
  · -- Only the stage pipe can have failed, and nothing is left of it.
    obtain ⟨-, rfl⟩ | ⟨rfl, created⟩ := staged
    · simp at unmade
    obtain ⟨short, -, reset, undone⟩ | ⟨-, made, -⟩ := created.of_noFds
    · refine .inr ⟨fun starts => short (starts.stagePipe rfl), _, rfl, ?_⟩
      have foreign := holders_foreign { starter with table := stage.table, pipefds := stage.fds }
        controlForeign
      refine (abandonStart_openSet _ undone zero (foreign ?_ ?_)).mpr ?_
      · exact reset ▸ noFds_foreign before
      · exact noError ▸ noFds_foreign before
      · exact fun fd member => List.mem_append_left _ (List.mem_append_left _ (held fd member))
    · simp [made] at unmade
  obtain ⟨live, pipes, stageForeign, stageExtends, stageHeld, ends⟩ :
      ∃ live : Set Nat, (last = false → calls.stagePipe.succeeds) ∧
        (∀ fd ∈ stage.fds.numbers, Foreign before fd) ∧ Extends before stage.table live ∧
        (∀ fd ∈ live, (fd : Int) ∈ starter.controlPipe.numbers ++ stage.fds.numbers) ∧
        if last then live = {controlRead, controlWrite} ∧ stage.fds = noFds
        else ∃ read write : Nat, stage.fds = { read, write } ∧
          [controlRead, controlWrite, read, write].Nodup ∧
          live = {read, write, controlRead, controlWrite} := by
    obtain ⟨rfl, rfl⟩ | ⟨rfl, created⟩ := staged
    · exact ⟨_, by simp, noFds_foreign before, extended,
        fun fd member => List.mem_append_left _ (held fd member), rfl, rfl⟩
    obtain ⟨-, no, -⟩ | ⟨succeeds, -, read, write, numbers, different, readNew, writeNew, readFree,
      writeFree, opened⟩ := created.of_noFds
    · simp [made] at no
    refine ⟨_, fun _ => succeeds, numbers ▸ pair_foreign readFree writeFree, opened, ?_, read,
      write, numbers, ?_, rfl⟩
    · rintro fd (rfl | rfl | member)
      · simp [numbers, PipeFds.numbers]
      · simp [numbers, PipeFds.numbers]
      · exact List.mem_append_left _ (held fd member)
    · simp only [Set.mem_insert_iff, Set.mem_singleton_iff] at readNew writeNew
      simp
      omega
  rw [noError] at errorMade
  obtain ⟨failing, rfl⟩ | ⟨succeeded, forked, children, rfl⟩ := ran
  · obtain ⟨short, restored⟩ :=
      fork_restores controlForeign stageForeign stageExtends zero stageHeld errorMade failing
    exact .inr ⟨fun starts => short ⟨starts.errorPipe, starts.forked⟩, _, rfl, restored⟩
  obtain ⟨-, no, -⟩ | ⟨succeeds, -, read, write, numbers, different, readNew, writeNew, -, -,
    opened⟩ := (createPipe_created stageExtends zero errorMade).of_noFds
  · simp [succeeded] at no
  cases last with
  | true =>
    obtain ⟨rfl, none⟩ := ends
    obtain ⟨reported, settled, prevfd, closing, -, parent⟩ := parentStage_extends
      { starter with table := error.table, pipefds := stage.fds, errorPipe := error.fds, children }
      true opened zero numbers (by simp) (by simp) different (.inl prev) (by simp) calls.reported
    dsimp only at parent
    rw [if_pos first] at parent
    refine .inl ⟨⟨pipes, succeeds, forked⟩, _, read, parent, rfl, ?_⟩
    simp only [Set.mem_insert_iff, Set.mem_singleton_iff] at readNew writeNew
    refine ⟨closing.congr fun fd => ?_, control, ?_, rfl, .inl rfl, ?_⟩
    · simp only [Set.mem_ofPred_eq, Set.mem_insert_iff, Set.mem_singleton_iff, prev,
        Bool.true_eq_false, false_implies, true_and]
      omega
    · rw [none]
      intro fd heldFd
      refine ⟨noFds_foreign before fd heldFd, ?_⟩
      obtain rfl : fd = -1 := by simpa [PipeFds.numbers, noFds] using heldFd
      omega
    · simp
      omega
  | false =>
    obtain ⟨stageRead, stageWrite, stageFds, apart, rfl⟩ := ends
    simp only [List.nodup_cons, List.mem_cons, List.not_mem_nil, or_false, not_false_eq_true,
      and_true, List.nodup_nil, Set.mem_insert_iff, Set.mem_singleton_iff] at apart readNew writeNew
    obtain ⟨reported, settled, prevfd, closing, -, parent⟩ := parentStage_extends
      { starter with table := error.table, pipefds := stage.fds, errorPipe := error.fds, children }
      false opened zero numbers (by simp) (by simp) different (.inl prev)
      (fun _ => ⟨stageWrite, by simp, by simp [stageFds], by simp only [prev]; omega, by omega,
        by omega⟩) calls.reported
    dsimp only at parent
    rw [if_pos first] at parent
    refine .inl ⟨⟨pipes, succeeds, forked⟩, _, read, parent, rfl, stageRead, ?_⟩
    refine ⟨closing.congr fun fd => ?_, control, ?_, ?_, rfl, rfl, .inl rfl, ?_⟩
    · simp only [Set.mem_ofPred_eq, Set.mem_insert_iff, Set.mem_singleton_iff, prev, stageFds,
        forall_const]
      grind
    · simp [stageFds]
    · simp [stageFds]
    · simp
      grind

end Akiso.Shell
