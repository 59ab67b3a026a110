import Akiso.Shell.StageEnds

set_option autoImplicit false

namespace Akiso.Shell

open Descriptors

namespace Forking

variable {shell : ShellDescriptors} {starter : Starter} {index : Nat} {last : Bool}

theorem output_isSome (forking : Forking shell.table starter index last) :
    (starter.table 1).isSome := by
  rw [forking.sound.output]
  exact shell.standard 1 (by decide)

theorem linkPipes (forking : Forking shell.table starter index last) :
    ∃ linked, Shell.linkPipes starter.table starter.prevfd
        (if last then 1 else starter.pipefds.write) = some linked ∧
      linked 0 = (if index = 0 then shell.table 0
        else some { file := .readEnd (.stage (index - 1)), cloexec := false }) ∧
      linked 1 = (if last then shell.table 1
        else some { file := .writeEnd (.stage index), cloexec := false }) ∧
      ∀ fd, fd ≠ 0 → fd ≠ 1 → linked fd = starter.table fd := by
  have intake : ∃ table, (if starter.prevfd ≠ -2 then dup2 starter.table starter.prevfd 0
      else some starter.table) = some table ∧
      table 0 = (if index = 0 then shell.table 0
        else some { file := .readEnd (.stage (index - 1)), cloexec := false }) ∧
      ∀ fd, fd ≠ 0 → table fd = starter.table fd := by
    rcases forking.upstream with ⟨start, unset⟩ | ⟨later, read, high, same, opened⟩
    · exact ⟨starter.table, by simp [unset], by simp [start, forking.sound.input], fun _ _ => rfl⟩
    · have positive : (read : Int) ≠ -2 := by omega
      have moved := dup2_open opened (show read ≠ 0 by omega)
      refine ⟨_, by rw [same, if_pos positive]; exact moved, ?_, ?_⟩
      next => simp [Nat.ne_of_gt later]
      next => exact fun fd low => Function.update_of_ne low _ _
  obtain ⟨table, linked, zero, others⟩ := intake
  have one : table 1 = starter.table 1 := others 1 (by decide)
  unfold Shell.linkPipes
  rw [linked]
  cases last with
  | true =>
    have opened : (table 1).isSome := one ▸ forking.output_isSome
    have same : dup2 table 1 1 = some table := by simpa using dup2_self opened
    refine ⟨table, ?_, zero, ?_, fun fd low _ => others fd low⟩
    next => simp [same]
    next => simpa [one] using forking.sound.output
  | false =>
    obtain ⟨read, write, _, writeHigh, fds, _, writeOpen⟩ := forking.stage rfl
    have opened : table write = writeEndOf (.stage index) := by
      rw [others write (by omega), writeOpen]
    have positive : (write : Int) ≠ -2 := by omega
    have moved := dup2_open opened (show write ≠ 1 by omega)
    refine ⟨Function.update table 1
      (some { file := .writeEnd (.stage index), cloexec := false }), ?_, ?_, ?_, ?_⟩
    next => simp [fds, positive, moved]
    next => simpa using zero
    next => simp
    next =>
      intro fd notZero notOne
      rw [Function.update_of_ne notOne]
      exact others fd notZero

theorem upstream_ne (forking : Forking shell.table starter index last) {fd : Nat}
    {descriptor : Descriptor OpenFile} (present : starter.table fd = some descriptor)
    (other : descriptor.file ≠ .readEnd (.stage (index - 1))) : starter.prevfd ≠ fd := by
  rcases forking.upstream with ⟨_, unset⟩ | ⟨_, read, _, same, opened⟩
  · rw [unset]
    omega
  · rw [same]
    refine ne_of_files opened present fun equal => other ?_
    rw [← equal]

theorem prevfd_low (forking : Forking shell.table starter index last) {fd : Nat} (low : fd < 2) :
    starter.prevfd ≠ fd := by
  rcases forking.upstream with ⟨_, unset⟩ | ⟨_, read, high, same, _⟩
  · rw [unset]
    omega
  · rw [same]
    omega

theorem childTable (forking : Forking shell.table starter index last) :
    ∃ child, Shell.childTable starter last = some child ∧
      ChildWired shell.table index last child := by
  obtain ⟨linked, linkedEq, zero, one, others⟩ := forking.linkPipes
  obtain ⟨controlRead, controlWrite, readHigh, writeHigh, controlEq, readOpen, writeOpen⟩ :=
    forking.sound.control
  let closed := (closePipe linked { read := starter.prevfd, write := -1 } 1).table
  let narrowed := if last then closed else (closePipe closed starter.pipefds 2).table
  have closedKeeps : ∀ fd : Nat, starter.prevfd ≠ fd → closed fd = linked fd := by
    intro fd different
    exact closePipe_other different (by simp only; omega)
  have narrowedKeeps : ∀ fd : Nat, starter.prevfd ≠ fd →
      (last = false → starter.pipefds.read ≠ fd ∧ starter.pipefds.write ≠ fd) →
      narrowed fd = linked fd := by
    intro fd different apart
    cases last with
    | true => exact closedKeeps fd different
    | false =>
      have kept : narrowed fd = closed fd := closePipe_other (apart rfl).1 (apart rfl).2
      rw [kept, closedKeeps fd different]
  have shrinks : Shrinks linked narrowed := by
    have first : Shrinks linked closed := closePipe_shrinks _ _ _
    cases last with
    | true => exact first
    | false => exact first.trans (closePipe_shrinks _ _ _)
  have lowKept : ∀ fd : Nat, fd < 2 → narrowed fd = linked fd := by
    intro fd low
    refine narrowedKeeps fd (forking.prevfd_low low) fun more => ?_
    obtain ⟨read, write, readAbove, writeAbove, fds, _, _⟩ := forking.stage more
    rw [fds]
    exact ⟨by simp only; omega, by simp only; omega⟩
  have controlOpen : narrowed controlWrite = writeEndOf .control := by
    rw [narrowedKeeps, others controlWrite (by omega) (by omega), writeOpen]
    next => exact forking.upstream_ne writeOpen (by simp)
    next =>
      intro more
      obtain ⟨read, write, _, _, fds, stageRead, stageWrite⟩ := forking.stage more
      rw [fds]
      exact ⟨ne_of_files stageRead writeOpen (by simp), ne_of_files stageWrite writeOpen (by simp)⟩
  obtain ⟨child, finished, fewer, lowSame⟩ := closeControl_some starter.first controlEq readHigh
    writeHigh (Option.isSome_iff_exists.mpr ⟨_, controlOpen⟩)
  refine ⟨child, ?_, ?_⟩
  next =>
    unfold Shell.childTable
    rw [linkedEq]
    exact finished
  next =>
    constructor
    next => rw [lowSame 0 (by decide), lowKept 0 (by decide), zero]
    next => rw [lowSame 1 (by decide), lowKept 1 (by decide), one]
    next =>
      intro fd descriptor notZero notOne present isPipe
      have inLinked := (shrinks.trans fewer).some present
      rw [others fd notZero notOne] at inLinked
      exact forking.sound.cloexec fd descriptor inLinked isPipe

theorem parentStage (forking : Forking shell.table starter index last) :
    ∃ next, Shell.parentStage starter last false = .going next ∧
      next.children = starter.children ∧ next.controlPipe = starter.controlPipe ∧
      next.first = false ∧ (last = false → next.prevfd = starter.pipefds.read) ∧
      Shrinks starter.table next.table ∧
      (∀ fd : Nat, starter.prevfd ≠ fd → (last = false → starter.pipefds.write ≠ fd) →
        starter.errorPipe.read ≠ fd → starter.errorPipe.write ≠ fd →
          next.table fd = starter.table fd) ∧
      ∀ fd : Nat, 0 < fd →
        starter.prevfd = fd ∨ last = false ∧ starter.pipefds.write = fd → next.table fd = none := by
  obtain ⟨errorRead, errorWrite, errorReadHigh, errorWriteHigh, errorEq, readOpen, writeOpen⟩ :=
    forking.error
  let closed := (closeEnd starter.table starter.prevfd).2.1
  let narrowed := if last then closed else (closeEnd closed starter.pipefds.write).2.1
  let reported := Function.update narrowed errorWrite none
  let settled := if starter.first then reported else (closeEnd reported errorRead).2.1
  have closedKeeps : ∀ fd : Nat, starter.prevfd ≠ fd → closed fd = starter.table fd :=
    fun fd different => closeEnd_other different
  have narrowedKeeps : ∀ fd : Nat, starter.prevfd ≠ fd →
      (last = false → starter.pipefds.write ≠ fd) → narrowed fd = starter.table fd := by
    intro fd different apart
    rw [← closedKeeps fd different]
    cases last with
    | true => rfl
    | false => exact closeEnd_other (apart rfl)
  have opened : narrowed errorWrite = writeEndOf (.error index) := by
    rw [narrowedKeeps, writeOpen]
    next => exact forking.upstream_ne writeOpen (by simp)
    next =>
      intro more
      obtain ⟨_, write, _, _, fds, _, stageWrite⟩ := forking.stage more
      rw [fds]
      exact ne_of_files stageWrite writeOpen (by simp)
  have ended := closeEnd_open (by omega : 0 < errorWrite)
    (Option.isSome_iff_exists.mpr ⟨_, opened⟩)
  have computed : ∃ next, Shell.parentStage starter last false = .going next ∧
      next.children = starter.children ∧ next.controlPipe = starter.controlPipe ∧
      next.first = false ∧ (last = false → next.prevfd = starter.pipefds.read) ∧
      next.table = settled := by
    cases last with
    | true =>
      have ended : closeEnd (closeEnd starter.table starter.prevfd).2.1 (errorWrite : Int) =
        (true, reported, -1) := ended
      cases first : starter.first with
      | true => simp [Shell.parentStage, closePipe_read, closePipe_write, errorEq, ended, first,
          settled]
      | false => simp [Shell.parentStage, closePipe_read, closePipe_write, errorEq, ended, first,
          settled]
    | false =>
      have ended : closeEnd (closeEnd (closeEnd starter.table starter.prevfd).2.1
        starter.pipefds.write).2.1 (errorWrite : Int) = (true, reported, -1) := ended
      cases first : starter.first with
      | true => simp [Shell.parentStage, closePipe_read, closePipe_write, errorEq, ended, first,
          settled]
      | false => simp [Shell.parentStage, closePipe_read, closePipe_write, errorEq, ended, first,
          settled]
  obtain ⟨next, going, children, control, first, prevfd, table⟩ := computed
  have narrows : Shrinks starter.table narrowed := by
    have start : Shrinks starter.table closed := closeEnd_shrinks _ _
    cases last with
    | true => exact start
    | false => exact start.trans (closeEnd_shrinks _ _)
  have settles : Shrinks narrowed settled := by
    have start : Shrinks narrowed reported := shrinks_update_none _ _
    unfold settled
    split
    next => exact start
    next => exact start.trans (closeEnd_shrinks _ _)
  refine ⟨next, going, children, control, first, prevfd, ?_, ?_, ?_⟩
  next => exact table ▸ narrows.trans settles
  next =>
    intro fd notPrev notWrite notErrorRead notErrorWrite
    rw [errorEq] at notErrorRead notErrorWrite
    have different : fd ≠ errorWrite := by
      rintro rfl
      exact notErrorWrite rfl
    have kept : reported fd = narrowed fd := Function.update_of_ne different _ _
    rw [table, ← narrowedKeeps fd notPrev notWrite, ← kept]
    unfold settled
    split
    next => rfl
    next => exact closeEnd_other notErrorRead
  next =>
    intro fd positive which
    rw [table]
    refine settles.none ?_
    rcases which with same | ⟨more, same⟩
    · have gone : closed fd = none := by
        show (closeEnd starter.table starter.prevfd).2.1 fd = none
        rw [same]
        exact closeEnd_gone starter.table positive
      cases last with
      | true => exact gone
      | false => exact (closeEnd_shrinks _ _).none gone
    · subst more
      show (closeEnd closed starter.pipefds.write).2.1 fd = none
      rw [same]
      exact closeEnd_gone closed positive

theorem low_kept (forking : Forking shell.table starter index last) {next : Starter}
    (kept : ∀ fd : Nat, starter.prevfd ≠ fd → (last = false → starter.pipefds.write ≠ fd) →
      starter.errorPipe.read ≠ fd → starter.errorPipe.write ≠ fd →
        next.table fd = starter.table fd) {fd : Nat} (low : fd < 2) :
    next.table fd = starter.table fd := by
  obtain ⟨errorRead, errorWrite, errorReadHigh, errorWriteHigh, errorEq, _, _⟩ := forking.error
  refine kept fd (forking.prevfd_low low) (fun more => ?_) ?_ ?_
  next =>
    obtain ⟨_, write, _, high, fds, _, _⟩ := forking.stage more
    rw [fds]
    simp only
    omega
  next =>
    rw [errorEq]
    simp only
    omega
  next =>
    rw [errorEq]
    simp only
    omega

theorem pipe_kept (forking : Forking shell.table starter index last) {next : Starter}
    (kept : ∀ fd : Nat, starter.prevfd ≠ fd → (last = false → starter.pipefds.write ≠ fd) →
      starter.errorPipe.read ≠ fd → starter.errorPipe.write ≠ fd →
        next.table fd = starter.table fd) {fd : Nat} {descriptor : Descriptor OpenFile}
    (present : starter.table fd = some descriptor)
    (notUpstream : starter.prevfd ≠ fd)
    (notWrite : descriptor.file ≠ .writeEnd (.stage index))
    (notErrorRead : descriptor.file ≠ .readEnd (.error index))
    (notErrorWrite : descriptor.file ≠ .writeEnd (.error index)) :
    next.table fd = starter.table fd := by
  obtain ⟨errorRead, errorWrite, _, _, errorEq, readOpen, writeOpen⟩ := forking.error
  refine kept fd notUpstream (fun more => ?_) ?_ ?_
  next =>
    obtain ⟨_, write, _, _, fds, _, stageWrite⟩ := forking.stage more
    rw [fds]
    exact ne_of_files stageWrite present fun same => notWrite (same ▸ rfl)
  next =>
    rw [errorEq]
    exact ne_of_files readOpen present fun same => notErrorRead (same ▸ rfl)
  next =>
    rw [errorEq]
    exact ne_of_files writeOpen present fun same => notErrorWrite (same ▸ rfl)

theorem advance (forking : Forking shell.table starter index last) :
    ∃ next, Shell.parentStage starter last false = .going next ∧
      next.children = starter.children ∧
      (last = false → Looping shell.table next (index + 1)) ∧
      (last = true → ∀ fd descriptor, next.table fd = some descriptor →
        descriptor.file.isStage = false) := by
  obtain ⟨next, going, children, control, first, prevfd, shrinks, kept, gone⟩ :=
    forking.parentStage
  have stageLeft : ∀ fd descriptor, next.table fd = some descriptor →
      descriptor.file.isStage = true → last = false ∧ (fd : Int) = starter.pipefds.read := by
    intro fd descriptor present isStage
    have old := shrinks.some present
    have positive : 0 < fd := by
      rcases Nat.eq_zero_or_pos fd with rfl | positive
      · rw [forking.sound.input] at old
        have foreign := shell.foreign 0 descriptor old
        cases file : descriptor.file <;> simp_all [OpenFile.isPipe, OpenFile.isStage]
      · exact positive
    rcases forking.ends fd descriptor old isStage with atPrev | ⟨more, atRead | atWrite⟩
    · simp [gone fd positive (Or.inl atPrev.symm)] at present
    · exact ⟨more, atRead⟩
    · simp [gone fd positive (Or.inr ⟨more, atWrite.symm⟩)] at present
  refine ⟨next, going, children, fun more => ?_, fun ended fd descriptor present => ?_⟩
  next =>
    obtain ⟨read, write, readHigh, _, fds, readOpen, _⟩ := forking.stage more
    constructor
    next =>
      constructor
      next => rw [forking.low_kept kept (by decide), forking.sound.input]
      next => rw [forking.low_kept kept (by decide), forking.sound.output]
      next =>
        exact fun fd descriptor present =>
          forking.sound.cloexec fd descriptor (shrinks.some present)
      next =>
        rw [control]
        refine forking.sound.control.keep fun fd held => ?_
        rcases held with opened | opened
        · exact forking.pipe_kept kept opened (forking.upstream_ne opened (by simp)) (by simp)
            (by simp) (by simp)
        · exact forking.pipe_kept kept opened (forking.upstream_ne opened (by simp)) (by simp)
            (by simp) (by simp)
      next => simp [first]
    next =>
      refine Or.inr ⟨Nat.succ_pos _, read, readHigh, ?_, ?_⟩
      next => rw [prevfd more, fds]
      next =>
        have apart : starter.prevfd ≠ read := by
          rcases forking.upstream with ⟨_, unset⟩ | ⟨later, _⟩
          · rw [unset]
            omega
          · refine forking.upstream_ne readOpen ?_
            simp only [ne_eq, OpenFile.readEnd.injEq, Pipe.stage.injEq]
            omega
        rw [forking.pipe_kept kept readOpen apart (by simp) (by simp) (by simp), readOpen]
        rfl
    next =>
      intro fd descriptor present isStage
      rw [prevfd more]
      exact (stageLeft fd descriptor present isStage).2
  next =>
    by_contra isStage
    have left := stageLeft fd descriptor present (by simpa using isStage)
    simp [ended] at left

end Forking

theorem Forking.withChildren {shell : Table OpenFile} {starter : Starter} {index : Nat}
    {last : Bool} (forking : Forking shell starter index last)
    (children : List (Option (Table OpenFile))) :
    Forking shell { starter with children } index last where
  sound := ⟨forking.sound.input, forking.sound.output, forking.sound.cloexec,
    forking.sound.control, forking.sound.first⟩
  upstream := forking.upstream
  stage := forking.stage
  error := forking.error
  ends := forking.ends

structure Wired (shell : Table OpenFile) (stages : Nat) (starter : Starter) : Prop where
  count : starter.children.length = stages
  children : ∀ index < stages, ∃ child, starter.children[index]? = some (some child) ∧
    ChildWired shell index (decide (index + 1 = stages)) child
  parent : ∀ fd descriptor, starter.table fd = some descriptor →
    descriptor.file.isStage = false

theorem startStages_wired {shell : ShellDescriptors} (total : Nat) (calls : List StageCalls)
    (nonempty : calls ≠ []) (succeed : AllSucceed calls) {starter : Starter}
    {index : Nat} (looping : Looping shell.table starter index)
    (counted : index + calls.length = total) (forked : starter.children.length = index)
    (wired : ∀ earlier < index, ∃ child, starter.children[earlier]? = some (some child) ∧
      ChildWired shell.table earlier (decide (earlier + 1 = total)) child)
    {progress : Progress} (ran : startStages starter index calls = some progress) :
    ∃ finished, progress = .going finished ∧ Wired shell.table total finished := by
  induction calls generalizing starter index with
  | nil => exact absurd rfl nonempty
  | cons stage rest ih =>
    simp only [startStages, Option.bind_eq_bind, Option.bind_eq_some_iff] at ran
    obtain ⟨staged, startedEq, ran⟩ := ran
    obtain ⟨forkedStarter, forking, children, rfl⟩ :=
      startStage_forking looping succeed.1 startedEq
    obtain ⟨child, reached, childWired⟩ := forking.childTable
    obtain ⟨next, going, nextChildren, more, ended⟩ :=
      (forking.withChildren (forkedStarter.children ++
        [childTable forkedStarter (decide (rest = []))])).advance
    rw [going] at ran
    dsimp only at ran
    rw [reached] at nextChildren
    simp only [children] at nextChildren
    have lastFlag : decide (rest = []) = decide (index + 1 = total) := by
      simp only [List.length_cons] at counted
      rw [decide_eq_decide, ← List.length_eq_zero_iff]
      omega
    have grown : next.children.length = index + 1 := by simp [nextChildren, forked]
    have allWired : ∀ earlier < index + 1,
        ∃ child, next.children[earlier]? = some (some child) ∧
          ChildWired shell.table earlier (decide (earlier + 1 = total)) child := by
      intro earlier before
      rw [nextChildren]
      by_cases latest : earlier = index
      next =>
        subst latest
        exact ⟨child, by rw [List.getElem?_append_right (by omega)]; simp [forked],
          lastFlag ▸ childWired⟩
      next =>
        obtain ⟨old, found, oldWired⟩ := wired earlier (by omega)
        exact ⟨old, by rw [List.getElem?_append_left (by omega)]; exact found, oldWired⟩
    cases rest with
    | nil =>
      simp only [startStages, Option.some.injEq] at ran
      subst ran
      have complete : index + 1 = total := by simpa using counted
      exact ⟨next, rfl, complete ▸ grown, complete ▸ allWired, ended (by simp)⟩
    | cons following others =>
      have stillCounted : index + 1 + (following :: others).length = total := by
        simp only [List.length_cons] at counted ⊢
        omega
      exact ih (by simp) succeed.2 (more (by simp)) stillCounted grown allWired ran

theorem Looping.initial (shell : ShellDescriptors) {read write : Nat}
    (readFree : shell.table read = none) (writeFree : shell.table write = none)
    (different : read ≠ write) :
    Looping shell.table
      (beginStart { succeeded := true, table := withPipe shell.table .control read write
                    fds := { read, write } }) 0 := by
  have low : ∀ fd : Nat, fd < 2 → fd ≠ read ∧ fd ≠ write := by
    intro fd below
    have opened := shell.standard fd (by omega)
    constructor
    next => rintro rfl; simp [readFree] at opened
    next => rintro rfl; simp [writeFree] at opened
  have readHigh : 1 < read := by
    have zero := low 0 (by decide)
    have one := low 1 (by decide)
    omega
  have writeHigh : 1 < write := by
    have zero := low 0 (by decide)
    have one := low 1 (by decide)
    omega
  have foreign : ∀ fd descriptor, withPipe shell.table .control read write fd = some descriptor →
      descriptor.file.isPipe = true →
        descriptor.cloexec = true ∧ descriptor.file.isStage = false := by
    intro fd descriptor present isPipe
    rcases withPipe_cases present with ⟨_, rfl⟩ | ⟨_, rfl⟩ | old
    · exact ⟨rfl, rfl⟩
    · exact ⟨rfl, rfl⟩
    · simp [shell.foreign fd descriptor old] at isPipe
  constructor
  next =>
    constructor
    next => exact withPipe_other (low 0 (by decide)).1 (low 0 (by decide)).2
    next => exact withPipe_other (low 1 (by decide)).1 (low 1 (by decide)).2
    next => exact fun fd descriptor present isPipe => (foreign fd descriptor present isPipe).1
    next => exact holds_withPipe readHigh writeHigh different
    next => rfl
  next => exact Or.inl ⟨rfl, rfl⟩
  next =>
    intro fd descriptor present isStage
    have isPipe : descriptor.file.isPipe = true := by
      cases file : descriptor.file <;> simp_all [OpenFile.isPipe, OpenFile.isStage]
    rw [(foreign fd descriptor present isPipe).2] at isStage
    simp at isStage

theorem finishStart_shrinks (starter : Starter) :
    ∃ finished, finishStart starter false = .going finished ∧
      Shrinks starter.table finished.table := by
  refine ⟨_, rfl, ?_⟩
  have control := closePipe_shrinks starter.table starter.controlPipe 3
  have stage := closePipe_shrinks (closePipe starter.table starter.controlPipe 3).table
    starter.pipefds 3
  exact ((control.trans stage).trans (closePipe_shrinks _ _ 1)).trans (closePipe_shrinks _ _ 3)

theorem startJobInternal_succeeds (shell : ShellDescriptors) (controlCall : PipeCall)
    (stages : List StageCalls) (nonempty : stages ≠ []) (control : controlCall.succeeds)
    (succeed : AllSucceed stages) {status : Int} {table : Table OpenFile}
    (ran : startJobInternal shell.table controlCall stages false = some (status, table)) :
    status = 0 ∧ ∀ fd descriptor, table fd = some descriptor →
      descriptor.file.isStage = false := by
  simp only [startJobInternal, Option.bind_eq_bind, Option.bind_eq_some_iff] at ran
  obtain ⟨creation, created, ran⟩ := ran
  obtain ⟨read, write, readFree, writeFree, different, rfl⟩ := createPipe_succeeds control created
  simp only [if_true, Option.bind_eq_some_iff] at ran
  obtain ⟨progress, looped, ran⟩ := ran
  obtain ⟨loopEnd, rfl, wired⟩ := startStages_wired stages.length stages nonempty succeed
    (Looping.initial shell readFree writeFree different) (by simp) rfl (by simp) looped
  obtain ⟨finished, finishing, shrinks⟩ := finishStart_shrinks loopEnd
  simp only [finishing, Option.some.injEq, Prod.mk.injEq] at ran
  obtain ⟨rfl, rfl⟩ := ran
  refine ⟨rfl, fun fd descriptor present => ?_⟩
  exact wired.parent fd descriptor (shrinks.some present)

/-- For every number of stages and whatever free numbers the kernel hands out: if no call fails,
the loop runs to its end, every stage is wired to its neighbours and the parent has closed every
end of every stage pipe. -/
theorem pipeline_wired (shell : ShellDescriptors) (controlCall : PipeCall)
    (stages : List StageCalls) (nonempty : stages ≠ []) (control : controlCall.succeeds)
    (succeed : AllSucceed stages) (progress : Progress)
    (ran : startPipeline shell.table controlCall stages = some progress) :
    ∃ finished, progress = .going finished ∧ Wired shell.table stages.length finished := by
  unfold startPipeline at ran
  simp only [Option.bind_eq_bind, Option.bind_eq_some_iff] at ran
  obtain ⟨creation, created, ran⟩ := ran
  obtain ⟨read, write, readFree, writeFree, different, rfl⟩ := createPipe_succeeds control created
  exact startStages_wired stages.length stages nonempty succeed
    (Looping.initial shell readFree writeFree different) (by simp) rfl (by simp) ran

def terminalShell : ShellDescriptors where
  table fd := if fd < 3 then some { file := .inherited fd, cloexec := false } else none
  standard fd low := by simp [low]
  foreign fd descriptor present := by
    split at present
    next =>
      cases present
      rfl
    next => simp at present

def threeStages : List StageCalls :=
  [{ stagePipe := .opened 5 6 4, errorPipe := .opened 7 8 4, forked := true, reported := false },
    { stagePipe := .opened 6 8 4, errorPipe := .opened 9 10 4, forked := true, reported := false },
    { stagePipe := .refused, errorPipe := .opened 5 8 4, forked := true, reported := false }]

theorem pipeline_wired_threeStages :
    ∃ finished, startPipeline terminalShell.table (.opened 3 4 4) threeStages =
        some (.going finished) ∧ Wired terminalShell.table 3 finished := by
  have answered : (startPipeline terminalShell.table (.opened 3 4 4) threeStages).isSome := by
    decide +kernel
  obtain ⟨progress, ran⟩ := Option.isSome_iff_exists.mp answered
  have succeed : AllSucceed threeStages :=
    ⟨⟨fun _ => Nat.le_refl 4, Nat.le_refl 4, rfl, rfl⟩,
      ⟨fun _ => Nat.le_refl 4, Nat.le_refl 4, rfl, rfl⟩,
      ⟨fun more => by simp at more, Nat.le_refl 4, rfl, rfl⟩, True.intro⟩
  obtain ⟨finished, rfl, wired⟩ := pipeline_wired terminalShell (.opened 3 4 4) threeStages
    (by simp [threeStages]) (Nat.le_refl 4) succeed progress ran
  exact ⟨finished, ran, wired⟩

end Akiso.Shell
