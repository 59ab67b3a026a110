import Akiso.Shell.FirstStage

set_option autoImplicit false

namespace Akiso.Shell

open Descriptors

variable {before : Table OpenFile} {live : Set Nat} {starter : Starter} {index : Nat} {last : Bool}
  {calls : StageCalls} {controlRead controlWrite upstream report : Nat}

theorem abandonStart_leaks (starter : Starter) (fd : Nat)
    (extended : Extends before starter.table live) (zero : (before 0).isSome)
    (foreign : ∀ fd ∈ starter.holders, Foreign before fd) (member : fd ∈ live)
    (lost : (fd : Int) ∉ starter.holders) :
    openSet (abandonStart starter).table ≠ openSet before := fun same =>
  lost ((abandonStart_openSet starter extended zero foreign).mp same fd member)

theorem PipeCall.succeeds.ne_refused {call : PipeCall} (succeeds : call.succeeds) :
    call ≠ .refused := by
  rintro rfl
  exact succeeds

theorem Between.controlForeign
    (between : Between before starter controlRead controlWrite upstream report) :
    ∀ fd ∈ starter.controlPipe.numbers, Foreign before fd :=
  control_foreign between.control between.extended (by simp) (by simp)

theorem Between.errorForeign
    (between : Between before starter controlRead controlWrite upstream report) :
    ∀ fd ∈ starter.errorPipe.numbers, Foreign before fd := by
  rcases between.error with half | none
  · exact half ▸ half_foreign (between.extended.fresh report (by simp))
  · exact none ▸ noFds_foreign before

-- Nothing is lost at the start of the second iteration, and the first stage's error pipe at the
-- start of every later one.
theorem Between.abandoned
    (between : Between before starter controlRead controlWrite upstream report)
    (zero : (before 0).isSome) :
    openSet (abandonStart starter).table = openSet before ↔ starter.errorPipe ≠ noFds := by
  have distinct := between.distinct
  simp only [List.nodup_cons, List.mem_cons, List.not_mem_nil, or_false, not_false_eq_true,
    and_true, List.nodup_nil] at distinct
  have stageForeign : ∀ fd ∈ starter.pipefds.numbers, Foreign before fd :=
    between.stage ▸ half_foreign (between.extended.fresh upstream (by simp))
  have foreign := holders_foreign _ between.controlForeign stageForeign between.errorForeign
  rw [abandonStart_openSet _ between.extended zero foreign]
  rcases between.error with half | none
  · refine iff_of_true ?_ (by simp [half, noFds])
    rintro fd (rfl | rfl | rfl | rfl) <;>
      simp [mem_holders, between.control, between.stage, half]
  · refine iff_of_false (fun held => ?_) (fun other => other none)
    have lost := held report (by simp)
    simp only [mem_holders, between.control, between.stage, none, noFds] at lost
    omega

theorem Between.stagePipe_fails
    (between : Between before starter controlRead controlWrite upstream report)
    (zero : (before 0).isSome) {stage : Creation} {call : PipeCall}
    (failed : stage.succeeded = false)
    (created : Created before {controlRead, controlWrite, upstream, report} starter.pipefds call
      stage) :
    ¬ call.succeeds ∧
      (openSet (abandonStart { starter with table := stage.table, pipefds := stage.fds }).table =
        openSet before ↔ starter.errorPipe ≠ noFds ∧ call = .refused) := by
  have distinct := between.distinct
  simp only [List.nodup_cons, List.mem_cons, List.not_mem_nil, or_false, not_false_eq_true,
    and_true, List.nodup_nil] at distinct
  cases created with
  | refused answer failed kept extended =>
    have same : Between before { starter with table := stage.table, pipefds := stage.fds }
        controlRead controlWrite upstream report :=
      { between with extended, stage := kept.trans between.stage }
    exact ⟨by simp [answer, PipeCall.succeeds], by simpa [answer] using same.abandoned zero⟩
  | undone answer short failed reset extended =>
    refine ⟨short, iff_of_false ?_ fun both => answer both.2⟩
    have foreign := holders_foreign
      { starter with table := stage.table, pipefds := stage.fds } between.controlForeign
      (reset ▸ noFds_foreign before) between.errorForeign
    refine abandonStart_leaks _ upstream extended zero foreign (by simp) ?_
    rcases between.error with half | none
    · simp only [mem_holders, between.control, reset, half, noFds]
      omega
    · simp only [mem_holders, between.control, reset, none, noFds]
      omega
  | opened read write answer succeeded => simp [succeeded] at failed

-- The error pipe and the fork of a later iteration. Of the first stage's error pipe only the error
-- pipe variable is closed, and of the read end for this stage only the stage pipe variable.
theorem Between.fork_fails
    (between : Between before starter controlRead controlWrite upstream report)
    (zero : (before 0).isSome) {stage error : Creation}
    (extended : Extends before stage.table live)
    (lives : ∀ fd ∈ ({controlRead, controlWrite, upstream, report} : Set Nat), fd ∈ live)
    (stageForeign : ∀ fd ∈ stage.fds.numbers, Foreign before fd)
    (reportElsewhere : (report : Int) ∉ stage.fds.numbers)
    (ends : if last then live = {controlRead, controlWrite, upstream, report} ∧
        stage.fds = { read := upstream, write := -1 }
      else calls.stagePipe.succeeds ∧ (upstream : Int) ∉ stage.fds.numbers)
    (made : createPipe stage.table starter.errorPipe (.error index) calls.errorPipe = some error)
    (failing : error.succeeded = false ∨ calls.forked = false) :
    ¬ (calls.errorPipe.succeeds ∧ calls.forked = true) ∧
      (openSet (abandonStart { starter with
        table := error.table, pipefds := stage.fds, errorPipe := error.fds }).table =
        openSet before ↔ starter.errorPipe ≠ noFds ∧ calls.firstPipe last = .refused) := by
  have distinct := between.distinct
  simp only [List.nodup_cons, List.mem_cons, List.not_mem_nil, or_false, not_false_eq_true,
    and_true, List.nodup_nil] at distinct
  simp only [PipeFds.numbers, List.mem_cons, List.not_mem_nil, or_false] at reportElsewhere
  have opens (pipe : calls.errorPipe ≠ .refused) : calls.firstPipe last ≠ .refused := by
    cases last with
    | true => exact pipe
    | false => exact ends.1.ne_refused
  cases createPipe_created extended zero made with
  | refused answer failed kept extended =>
    refine ⟨by simp [answer, PipeCall.succeeds], ?_⟩
    cases last with
    | true =>
      obtain ⟨rfl, stageFds⟩ := ends
      have same : Between before
          { starter with table := error.table, pipefds := stage.fds, errorPipe := error.fds }
          controlRead controlWrite upstream report :=
        { between with extended, stage := stageFds, error := kept ▸ between.error }
      simpa [kept, StageCalls.firstPipe, answer] using same.abandoned zero
    | false =>
      obtain ⟨succeeds, upstreamElsewhere⟩ := ends
      have foreign := holders_foreign
        { starter with table := error.table, pipefds := stage.fds, errorPipe := error.fds }
        between.controlForeign stageForeign (kept ▸ between.errorForeign)
      refine iff_of_false ?_ fun both => succeeds.ne_refused both.2
      refine abandonStart_leaks _ upstream extended zero foreign (lives upstream (by simp)) ?_
      simp only [PipeFds.numbers, List.mem_cons, List.not_mem_nil, or_false] at upstreamElsewhere
      rcases between.error with half | none
      · simp only [mem_holders, between.control, kept, half]
        omega
      · simp only [mem_holders, between.control, kept, none, noFds]
        omega
  | undone answer short failed reset extended =>
    refine ⟨fun both => short both.1, iff_of_false ?_ fun both => opens answer both.2⟩
    have foreign := holders_foreign
      { starter with table := error.table, pipefds := stage.fds, errorPipe := error.fds }
      between.controlForeign stageForeign (reset ▸ noFds_foreign before)
    refine abandonStart_leaks _ report extended zero foreign (lives report (by simp)) ?_
    simp only [mem_holders, between.control, reset, noFds]
    omega
  | opened read write answer succeeded numbers different readNew writeNew readFree writeFree
      extended =>
    have unforked : calls.forked = false := failing.resolve_left (by simp [succeeded])
    refine ⟨fun both => by simp [both.2] at unforked,
      iff_of_false ?_ fun both => opens answer.ne_refused both.2⟩
    have foreign := holders_foreign
      { starter with table := error.table, pipefds := stage.fds, errorPipe := error.fds }
      between.controlForeign stageForeign (numbers ▸ pair_foreign readFree writeFree)
    have member := lives report (by simp)
    refine abandonStart_leaks _ report extended zero foreign (.inr (.inr member)) ?_
    have apart : report ≠ read ∧ report ≠ write := by
      constructor <;> rintro rfl <;> contradiction
    simp only [mem_holders, between.control, numbers]
    omega

theorem parentStage_last (starter : Starter) (zero : (before 0).isSome) {read write : Nat}
    (extended : Extends before starter.table
      {read, write, controlRead, controlWrite, upstream, report})
    (distinct : [read, write, controlRead, controlWrite, upstream, report].Nodup)
    (control : starter.controlPipe = { read := controlRead, write := controlWrite })
    (stage : starter.pipefds = { read := upstream, write := -1 })
    (error : starter.errorPipe = { read, write }) (prev : starter.prevfd = upstream)
    (told : starter.firstErrorPipeRead = report) (first : starter.first = false) :
    (∃ failed, parentStage starter true true = .failed failed ∧
        openSet (abandonStart failed).table ≠ openSet before) ∧
      ∃ next, parentStage starter true false = .going next ∧ next.errorPipe = noFds ∧
        Ended before next controlRead controlWrite report := by
  simp only [List.nodup_cons, List.mem_cons, List.not_mem_nil, or_false, not_or,
    not_false_eq_true, and_true, List.nodup_nil] at distinct
  have run := parentStage_extends starter true extended zero error (by simp) (by simp)
    distinct.1.1 (.inr ⟨upstream, by simp, prev, by grind⟩) (by simp)
  have controlForeign := control_foreign control extended (by simp) (by simp)
  have stageForeign : ∀ fd ∈ starter.pipefds.numbers, Foreign before fd :=
    stage ▸ half_foreign (extended.fresh upstream (by simp))
  constructor
  · obtain ⟨reported, settled, prevfd, closing, -, parent⟩ := run true
    rw [first] at parent
    refine ⟨_, parent, ?_⟩
    refine abandonStart_leaks _ report closing zero ?_ ?_ ?_
    · exact holders_foreign _ controlForeign stageForeign
        (half_foreign (extended.fresh read (by simp)))
    · simp only [Set.mem_ofPred_eq, Set.mem_insert_iff, Set.mem_singleton_iff, prev]
      grind
    · simp only [mem_holders, control, if_true, stage]
      grind
  · obtain ⟨reported, settled, prevfd, -, closed, parent⟩ := run false
    rw [first] at parent
    refine ⟨_, parent, rfl, closed.congr fun fd => ?_, control, ?_, told, .inr rfl, by grind⟩
    · simp only [Set.mem_ofPred_eq, Set.mem_insert_iff, Set.mem_singleton_iff, prev]
      grind
    · refine fun fd held => ⟨stageForeign fd held, ?_⟩
      simp only [PipeFds.numbers, stage, List.mem_cons, List.not_mem_nil, or_false] at held
      grind

theorem parentStage_more (starter : Starter) (zero : (before 0).isSome)
    {read write stageRead stageWrite : Nat}
    (extended : Extends before starter.table
      {read, write, stageRead, stageWrite, controlRead, controlWrite, upstream, report})
    (distinct :
      [read, write, stageRead, stageWrite, controlRead, controlWrite, upstream, report].Nodup)
    (control : starter.controlPipe = { read := controlRead, write := controlWrite })
    (stage : starter.pipefds = { read := stageRead, write := stageWrite })
    (error : starter.errorPipe = { read, write }) (prev : starter.prevfd = upstream)
    (told : starter.firstErrorPipeRead = report) (first : starter.first = false) :
    (∃ failed, parentStage starter false true = .failed failed ∧
        openSet (abandonStart failed).table ≠ openSet before) ∧
      ∃ next, parentStage starter false false = .going next ∧ next.errorPipe = noFds ∧
        Between before next controlRead controlWrite stageRead report := by
  simp only [List.nodup_cons, List.mem_cons, List.not_mem_nil, or_false, not_or,
    not_false_eq_true, and_true, List.nodup_nil] at distinct
  have run := parentStage_extends starter false extended zero error (by simp) (by simp)
    distinct.1.1 (.inr ⟨upstream, by simp, prev, by grind⟩)
    (fun _ => ⟨stageWrite, by simp, by simp [stage], by grind⟩)
  have controlForeign := control_foreign control extended (by simp) (by simp)
  have halfForeign (fd : Nat) (member) := half_foreign (extended.fresh fd member)
  constructor
  · obtain ⟨reported, settled, prevfd, closing, -, parent⟩ := run true
    rw [first] at parent
    refine ⟨_, parent, ?_⟩
    refine abandonStart_leaks _ report closing zero ?_ ?_ ?_
    · refine holders_foreign _ controlForeign ?_ (halfForeign read (by simp))
      simpa [stage] using halfForeign stageRead (by simp)
    · simp only [Set.mem_ofPred_eq, Set.mem_insert_iff, Set.mem_singleton_iff, prev, stage]
      grind
    · simp only [mem_holders, control, Bool.false_eq_true, if_false, stage]
      grind
  · obtain ⟨reported, settled, prevfd, -, closed, parent⟩ := run false
    rw [first] at parent
    refine ⟨_, parent, rfl, closed.congr fun fd => ?_, control, by simp [stage], by simp [stage],
      told, rfl, .inr rfl, ?_⟩
    · simp only [Set.mem_ofPred_eq, Set.mem_insert_iff, Set.mem_singleton_iff, prev, stage]
      grind
    · simp only [List.nodup_cons, List.mem_cons, List.not_mem_nil, or_false, not_or,
        not_false_eq_true, and_true, List.nodup_nil]
      grind

theorem nodup_pair {first second : Nat} {rest : List Nat} (different : first ≠ second)
    (firstNew : first ∉ rest) (secondNew : second ∉ rest) (nodup : rest.Nodup) :
    (first :: second :: rest).Nodup := by
  simp [different, firstNew, secondNew, nodup]

theorem Between.startStage
    (between : Between before starter controlRead controlWrite upstream report)
    (zero : (before 0).isSome) {progress : Progress}
    (ran : startStage starter index last calls = some progress) :
    (calls.Succeed last ∧ ∃ next, progress = .going next ∧ next.errorPipe = noFds ∧
        if last then Ended before next controlRead controlWrite report
        else ∃ upstream, Between before next controlRead controlWrite upstream report) ∨
      (¬ calls.Succeed last ∧ ∃ failed, progress = .failed failed ∧
        (openSet (abandonStart failed).table = openSet before ↔
          starter.errorPipe ≠ noFds ∧ calls.firstPipe last = .refused)) := by
  have distinct := between.distinct
  simp only [List.nodup_cons, List.mem_cons, List.not_mem_nil, or_false, not_false_eq_true,
    and_true, List.nodup_nil] at distinct
  obtain ⟨stage, stageMade, ran⟩ := startStage_cases ran
  have staged := createStagePipe_cases between.extended zero stageMade
  obtain ⟨unmade, rfl⟩ | ⟨made, error, errorMade, ran⟩ := ran
  · obtain ⟨-, rfl⟩ | ⟨rfl, created⟩ := staged
    · simp at unmade
    obtain ⟨short, leaks⟩ := between.stagePipe_fails zero unmade created
    exact .inr ⟨fun succeed => short (succeed.stagePipe rfl), _, rfl, leaks⟩
  obtain ⟨live, stageExtends, lives, stageForeign, elsewhere, pipes, ends, parts⟩ :
      ∃ live : Set Nat, Extends before stage.table live ∧
        (∀ fd ∈ ({controlRead, controlWrite, upstream, report} : Set Nat), fd ∈ live) ∧
        (∀ fd ∈ stage.fds.numbers, Foreign before fd) ∧ (report : Int) ∉ stage.fds.numbers ∧
        (last = false → calls.stagePipe.succeeds) ∧
        (if last then live = {controlRead, controlWrite, upstream, report} ∧
            stage.fds = { read := upstream, write := -1 }
          else calls.stagePipe.succeeds ∧ (upstream : Int) ∉ stage.fds.numbers) ∧
        (last = false → ∃ read write : Nat, stage.fds = { read, write } ∧
          live = {read, write, controlRead, controlWrite, upstream, report} ∧
          [read, write, controlRead, controlWrite, upstream, report].Nodup) := by
    obtain ⟨rfl, rfl⟩ | ⟨rfl, created⟩ := staged
    · have fds : starter.pipefds = { read := upstream, write := -1 } := between.stage
      refine ⟨_, between.extended, fun _ member => member,
        fds ▸ half_foreign (between.extended.fresh upstream (by simp)), ?_, by simp, ⟨rfl, fds⟩,
        by simp⟩
      simp only [PipeFds.numbers, fds, List.mem_cons, List.not_mem_nil, or_false]
      omega
    · cases created with
      | refused answer failed => simp [failed] at made
      | undone answer short failed => simp [failed] at made
      | opened read write answer succeeded numbers different readNew writeNew readFree writeFree
          extended =>
        have apart : ∀ fd ∈ ({controlRead, controlWrite, upstream, report} : Set Nat),
            fd ≠ read ∧ fd ≠ write := by
          intro fd member
          constructor <;> rintro rfl <;> contradiction
        have reportApart := apart report (by simp)
        have upstreamApart := apart upstream (by simp)
        refine ⟨_, extended, fun fd member => .inr (.inr member),
          numbers ▸ pair_foreign readFree writeFree, ?_, fun _ => answer, ⟨answer, ?_⟩,
          fun _ => ⟨read, write, numbers, rfl, nodup_pair different (by simpa using readNew)
            (by simpa using writeNew) between.distinct⟩⟩
        · simp only [PipeFds.numbers, numbers, List.mem_cons, List.not_mem_nil, or_false]
          omega
        · simp only [PipeFds.numbers, numbers, List.mem_cons, List.not_mem_nil, or_false]
          omega
  obtain ⟨failing, rfl⟩ | ⟨succeeded, forked, children, rfl⟩ := ran
  · obtain ⟨short, leaks⟩ := between.fork_fails zero stageExtends lives stageForeign elsewhere ends
      errorMade failing
    exact .inr ⟨fun succeed => short ⟨succeed.errorPipe, succeed.forked⟩, _, rfl, leaks⟩
  cases createPipe_created stageExtends zero errorMade with
  | refused answer failed => simp [failed] at succeeded
  | undone answer short failed => simp [failed] at succeeded
  | opened read write answer succeeded numbers different readNew writeNew readFree writeFree
      opened =>
    cases last with
    | true =>
      obtain ⟨rfl, fds⟩ := ends
      have nodup := nodup_pair different (by simpa using readNew) (by simpa using writeNew)
        between.distinct
      obtain ⟨⟨failed, fails, leaks⟩, next, goes, cleared, ended⟩ := parentStage_last
        { starter with
          table := error.table, pipefds := stage.fds, errorPipe := error.fds, children }
        zero opened nodup between.control fds numbers between.prev between.told between.first
      cases told : calls.reported with
      | true =>
        refine .inr ⟨fun succeed => by simp [succeed.reported] at told, failed, fails, ?_⟩
        exact iff_of_false leaks fun both => answer.ne_refused both.2
      | false => exact .inl ⟨⟨pipes, answer, forked, told⟩, next, goes, cleared, ended⟩
    | false =>
      obtain ⟨stageRead, stageWrite, fds, rfl, stageNodup⟩ := parts rfl
      have nodup := nodup_pair different (by simpa using readNew) (by simpa using writeNew)
        stageNodup
      obtain ⟨⟨failed, fails, leaks⟩, next, goes, cleared, after⟩ := parentStage_more
        { starter with
          table := error.table, pipefds := stage.fds, errorPipe := error.fds, children }
        zero opened nodup between.control fds numbers between.prev between.told between.first
      cases told : calls.reported with
      | true =>
        refine .inr ⟨fun succeed => by simp [succeed.reported] at told, failed, fails, ?_⟩
        exact iff_of_false leaks fun both => (pipes rfl).ne_refused both.2
      | false => exact .inl ⟨⟨pipes, answer, forked, told⟩, next, goes, cleared, stageRead, after⟩

theorem StageCalls.Succeed.firstPipe {last : Bool} (succeed : calls.Succeed last) :
    calls.firstPipe last ≠ .refused := by
  cases last with
  | true => exact succeed.errorPipe.ne_refused
  | false => exact (succeed.stagePipe rfl).ne_refused

theorem Between.startStages (rest : List StageCalls)
    (between : Between before starter controlRead controlWrite upstream report)
    (zero : (before 0).isSome) {progress : Progress}
    (ran : startStages starter index (calls :: rest) = some progress) :
    (AllSucceed (calls :: rest) ∧ ∃ next, progress = .going next ∧ next.errorPipe = noFds ∧
        Ended before next controlRead controlWrite report) ∨
      (¬ AllSucceed (calls :: rest) ∧ ∃ failed, progress = .failed failed ∧
        (openSet (abandonStart failed).table = openSet before ↔
          starter.errorPipe ≠ noFds ∧ calls.firstPipe (rest = []) = .refused)) := by
  induction rest generalizing starter index calls upstream with
  | nil =>
    simp only [Shell.startStages, Option.bind_eq_bind, Option.bind_eq_some_iff] at ran
    obtain ⟨middle, iterated, ran⟩ := ran
    rcases between.startStage zero iterated with
      ⟨succeed, next, rfl, cleared, ended⟩ | ⟨fails, failed, rfl, leaks⟩
    · obtain rfl : Progress.going next = progress := by simpa using ran
      exact .inl ⟨⟨succeed, trivial⟩, next, rfl, cleared, by simpa using ended⟩
    · obtain rfl : Progress.failed failed = progress := by simpa using ran
      exact .inr ⟨fun all => fails all.1, failed, rfl, leaks⟩
  | cons following rest ih =>
    rw [Shell.startStages] at ran
    simp only [Option.bind_eq_bind, Option.bind_eq_some_iff] at ran
    obtain ⟨middle, iterated, ran⟩ := ran
    rcases between.startStage zero iterated with
      ⟨succeed, next, rfl, cleared, after⟩ | ⟨fails, failed, rfl, leaks⟩
    · obtain ⟨upstream, after⟩ : ∃ upstream,
          Between before next controlRead controlWrite upstream report := by simpa using after
      rcases ih after ran with ⟨all, ended⟩ | ⟨some, failed, fails, leaks⟩
      · exact .inl ⟨⟨succeed, all⟩, ended⟩
      · refine .inr ⟨fun all => some all.2, failed, fails, leaks.trans (iff_of_false ?_ ?_)⟩
        · exact fun both => both.1 cleared
        · exact fun both => succeed.firstPipe both.2
    · obtain rfl : Progress.failed failed = progress := by simpa using ran
      exact .inr ⟨fun all => fails all.1, failed, rfl, leaks⟩

end Akiso.Shell
