import Akiso.Shell.Pipes

set_option autoImplicit false

namespace Akiso.Shell

open Descriptors

def OpenFile.isPipe : OpenFile → Bool
  | .inherited _ => false
  | _ => true

def OpenFile.isStage : OpenFile → Bool
  | .readEnd (.stage _) => true
  | .writeEnd (.stage _) => true
  | _ => false

structure ShellDescriptors where
  table : Table OpenFile
  standard : ∀ fd < 3, (table fd).isSome
  foreign : ∀ fd descriptor, table fd = some descriptor → descriptor.file.isPipe = false

structure ChildWired (shell : Table OpenFile) (index : Nat) (last : Bool)
    (child : Table OpenFile) : Prop where
  input : child 0 =
    if index = 0 then shell 0
    else some { file := .readEnd (.stage (index - 1)), cloexec := false }
  output : child 1 =
    if last then shell 1 else some { file := .writeEnd (.stage index), cloexec := false }
  others : ∀ fd descriptor, fd ≠ 0 → fd ≠ 1 → child fd = some descriptor →
    descriptor.file.isPipe = true → descriptor.cloexec = true

def PipeCall.succeeds : PipeCall → Prop
  | .refused => False
  | .opened _ _ fcntls => 4 ≤ fcntls

structure StageCalls.Succeed (calls : StageCalls) (last : Bool) : Prop where
  stagePipe : last = false → calls.stagePipe.succeeds
  errorPipe : calls.errorPipe.succeeds
  forked : calls.forked = true
  reported : calls.reported = false

def AllSucceed : List StageCalls → Prop
  | [] => True
  | calls :: rest => calls.Succeed (rest = []) ∧ AllSucceed rest

def withPipe (table : Table OpenFile) (pipe : Pipe) (read write : Nat) : Table OpenFile :=
  Function.update
    (Function.update table read (some { file := .readEnd pipe, cloexec := true }))
    write (some { file := .writeEnd pipe, cloexec := true })

theorem setCloexec_withPipe {table : Table OpenFile} {pipe : Pipe} {read write : Nat}
    (different : read ≠ write) :
    setCloexec (setCloexec (Function.update
      (Function.update table read (some { file := .readEnd pipe, cloexec := false }))
      write (some { file := .writeEnd pipe, cloexec := false })) read) write =
      withPipe table pipe read write := by
  funext fd
  simp only [withPipe, setCloexec, Function.update_apply]
  by_cases atWrite : fd = write
  next => simp [atWrite, different.symm]
  next =>
    by_cases atRead : fd = read
    next => simp [atRead, different]
    next => simp [atWrite, atRead]

theorem createPipe_succeeds {table : Table OpenFile} {fds : PipeFds} {pipe : Pipe}
    {call : PipeCall} (succeeds : call.succeeds) {creation : Creation}
    (created : createPipe table fds pipe call = some creation) :
    ∃ read write : Nat, table read = none ∧ table write = none ∧ read ≠ write ∧
      creation = { succeeded := true, table := withPipe table pipe read write,
                   fds := { read, write } } := by
  cases call with
  | refused => exact succeeds.elim
  | opened read write fcntls =>
    have enough : 4 ≤ fcntls := succeeds
    have atLeast : 3 ≤ fcntls := by omega
    have full : ¬ fcntls < 4 := by omega
    by_cases free : read ≠ write ∧ table read = none ∧ table write = none
    next =>
      refine ⟨read, write, free.2.1, free.2.2, free.1, ?_⟩
      simp only [createPipe, openPair, if_pos free, atLeast, full, if_true, if_false,
        Option.some.injEq, setCloexec_withPipe free.1] at created
      exact created.symm
    next => simp [createPipe, openPair, free] at created

@[simp] theorem withPipe_read {table : Table OpenFile} {pipe : Pipe} {read write : Nat}
    (different : read ≠ write) :
    withPipe table pipe read write read = some { file := .readEnd pipe, cloexec := true } := by
  simp [withPipe, different]

@[simp] theorem withPipe_write (table : Table OpenFile) (pipe : Pipe) (read write : Nat) :
    withPipe table pipe read write write = some { file := .writeEnd pipe, cloexec := true } := by
  simp [withPipe]

theorem withPipe_other {table : Table OpenFile} {pipe : Pipe} {read write fd : Nat}
    (notRead : fd ≠ read) (notWrite : fd ≠ write) :
    withPipe table pipe read write fd = table fd := by
  simp [withPipe, notRead, notWrite]

theorem withPipe_kept {table : Table OpenFile} {pipe : Pipe} {read write fd : Nat}
    (readFree : table read = none) (writeFree : table write = none)
    {descriptor : Descriptor OpenFile} (present : table fd = some descriptor) :
    withPipe table pipe read write fd = some descriptor := by
  rw [withPipe_other, present]
  next => rintro rfl; simp [readFree] at present
  next => rintro rfl; simp [writeFree] at present

theorem withPipe_cases {table : Table OpenFile} {pipe : Pipe} {read write fd : Nat}
    {descriptor : Descriptor OpenFile}
    (present : withPipe table pipe read write fd = some descriptor) :
    (fd = read ∧ descriptor = { file := .readEnd pipe, cloexec := true }) ∨
    (fd = write ∧ descriptor = { file := .writeEnd pipe, cloexec := true }) ∨
    table fd = some descriptor := by
  by_cases atWrite : fd = write
  next =>
    subst atWrite
    simp only [withPipe_write, Option.some.injEq] at present
    exact Or.inr (Or.inl ⟨rfl, present.symm⟩)
  next =>
    by_cases atRead : fd = read
    next =>
      subst atRead
      rw [withPipe_read atWrite] at present
      exact Or.inl ⟨rfl, (Option.some.inj present).symm⟩
    next =>
      rw [withPipe_other atRead atWrite] at present
      exact Or.inr (Or.inr present)

theorem closeEnd_open {table : Table OpenFile} {fd : Nat} (positive : 0 < fd)
    (opened : (table fd).isSome) :
    closeEnd table (fd : Int) = (true, Function.update table fd none, -1) := by
  simp [closeEnd, positive, close_open opened]

theorem closeEnd_shrinks (table : Table OpenFile) (fd : Int) :
    Shrinks table (closeEnd table fd).2.1 := by
  unfold closeEnd
  split
  next =>
    split
    next closed done => exact shrinks_close done
    next => exact Shrinks.refl table
  next => exact Shrinks.refl table

theorem closeEnd_other {table : Table OpenFile} {fd : Int} {other : Nat} (different : fd ≠ other) :
    (closeEnd table fd).2.1 other = table other := by
  unfold closeEnd
  split
  next =>
    split
    next closed done => exact close_other done different
    next => rfl
  next => rfl

theorem closeEnd_gone (table : Table OpenFile) {fd : Nat} (positive : 0 < fd) :
    (closeEnd table (fd : Int)).2.1 fd = none := by
  cases opened : table fd with
  | none => exact (closeEnd_shrinks table fd).none opened
  | some descriptor =>
    rw [closeEnd_open positive (Option.isSome_iff_exists.mpr ⟨_, opened⟩)]
    simp

theorem closePipe_shrinks (table : Table OpenFile) (fds : PipeFds) (which : Nat) :
    Shrinks table (closePipe table fds which).table := by
  unfold closePipe
  dsimp only
  split <;> split
  next => exact (closeEnd_shrinks table _).trans (closeEnd_shrinks _ _)
  next => exact closeEnd_shrinks table _
  next => exact closeEnd_shrinks table _
  next => exact Shrinks.refl table

theorem closePipe_other {table : Table OpenFile} {fds : PipeFds} {which other : Nat}
    (read : fds.read ≠ other) (write : fds.write ≠ other) :
    (closePipe table fds which).table other = table other := by
  unfold closePipe
  dsimp only
  split <;> split
  next => rw [closeEnd_other write, closeEnd_other read]
  next => exact closeEnd_other write
  next => exact closeEnd_other read
  next => rfl

theorem closePipe_read (table : Table OpenFile) (fds : PipeFds) :
    closePipe table fds 1 =
      { succeeded := (closeEnd table fds.read).1, table := (closeEnd table fds.read).2.1
        fds := { fds with read := (closeEnd table fds.read).2.2 } } := by
  have bit : Nat.testBit 1 1 = false := rfl
  simp [closePipe, bit]

theorem closePipe_write (table : Table OpenFile) (fds : PipeFds) :
    closePipe table fds 2 =
      { succeeded := (closeEnd table fds.write).1, table := (closeEnd table fds.write).2.1
        fds := { fds with write := (closeEnd table fds.write).2.2 } } := by
  have bit : Nat.testBit 2 1 = true := rfl
  simp [closePipe, bit]

def readEndOf (pipe : Pipe) : Option (Descriptor OpenFile) :=
  some { file := .readEnd pipe, cloexec := true }

def writeEndOf (pipe : Pipe) : Option (Descriptor OpenFile) :=
  some { file := .writeEnd pipe, cloexec := true }

def Holds (table : Table OpenFile) (fds : PipeFds) (pipe : Pipe) : Prop :=
  ∃ read write : Nat, 1 < read ∧ 1 < write ∧ fds = { read, write } ∧
    table read = readEndOf pipe ∧ table write = writeEndOf pipe

def Upstream (table : Table OpenFile) (prevfd : Int) (index : Nat) : Prop :=
  index = 0 ∧ prevfd = -2 ∨
    0 < index ∧ ∃ read : Nat, 1 < read ∧ prevfd = read ∧
      table read = readEndOf (.stage (index - 1))

structure Sound (shell : Table OpenFile) (starter : Starter) (index : Nat) : Prop where
  input : starter.table 0 = shell 0
  output : starter.table 1 = shell 1
  cloexec : ∀ fd descriptor, starter.table fd = some descriptor →
    descriptor.file.isPipe = true → descriptor.cloexec = true
  control : Holds starter.table starter.controlPipe .control
  first : starter.first = decide (index = 0)

/-- The loop invariant at the start of iteration `index`. -/
structure Looping (shell : Table OpenFile) (starter : Starter) (index : Nat) : Prop where
  sound : Sound shell starter index
  upstream : Upstream starter.table starter.prevfd index
  ends : ∀ fd descriptor, starter.table fd = some descriptor →
    descriptor.file.isStage = true → (fd : Int) = starter.prevfd

/-- The same at the fork, with the pipes of the iteration open. -/
structure Forking (shell : Table OpenFile) (starter : Starter) (index : Nat) (last : Bool) :
    Prop where
  sound : Sound shell starter index
  upstream : Upstream starter.table starter.prevfd index
  stage : last = false → Holds starter.table starter.pipefds (.stage index)
  error : Holds starter.table starter.errorPipe (.error index)
  ends : ∀ fd descriptor, starter.table fd = some descriptor →
    descriptor.file.isStage = true →
      (fd : Int) = starter.prevfd ∨
        last = false ∧ ((fd : Int) = starter.pipefds.read ∨ (fd : Int) = starter.pipefds.write)

theorem Holds.keep {before after : Table OpenFile} {fds : PipeFds} {pipe : Pipe}
    (holds : Holds before fds pipe)
    (kept : ∀ fd : Nat, before fd = readEndOf pipe ∨ before fd = writeEndOf pipe →
      after fd = before fd) : Holds after fds pipe := by
  obtain ⟨read, write, readHigh, writeHigh, fdsEq, readOpen, writeOpen⟩ := holds
  refine ⟨read, write, readHigh, writeHigh, fdsEq, ?_, ?_⟩
  next => rw [kept read (Or.inl readOpen), readOpen]
  next => rw [kept write (Or.inr writeOpen), writeOpen]

theorem Upstream.keep {before after : Table OpenFile} {prevfd : Int} {index : Nat}
    (upstream : Upstream before prevfd index)
    (kept : ∀ fd descriptor, before fd = some descriptor → after fd = some descriptor) :
    Upstream after prevfd index := by
  rcases upstream with start | ⟨later, read, high, same, opened⟩
  · exact Or.inl start
  · exact Or.inr ⟨later, read, high, same, kept read _ opened⟩

theorem Sound.above {shell : ShellDescriptors} {starter : Starter} {index fd : Nat}
    (sound : Sound shell.table starter index) (free : starter.table fd = none) : 1 < fd := by
  have zero : fd ≠ 0 := by
    rintro rfl
    have opened := shell.standard 0 (by decide)
    rw [← sound.input, free] at opened
    simp at opened
  have one : fd ≠ 1 := by
    rintro rfl
    have opened := shell.standard 1 (by decide)
    rw [← sound.output, free] at opened
    simp at opened
  omega

theorem Sound.withPipe {shell : ShellDescriptors} {starter : Starter} {index : Nat}
    (sound : Sound shell.table starter index) (pipe : Pipe) {read write : Nat}
    (readFree : starter.table read = none) (writeFree : starter.table write = none)
    (pipefds errorPipe : PipeFds) :
    Sound shell.table { starter with
      table := Shell.withPipe starter.table pipe read write, pipefds, errorPipe } index where
  input := by
    have readHigh := sound.above readFree
    have writeHigh := sound.above writeFree
    rw [← sound.input]
    exact withPipe_other (by omega) (by omega)
  output := by
    have readHigh := sound.above readFree
    have writeHigh := sound.above writeFree
    rw [← sound.output]
    exact withPipe_other (by omega) (by omega)
  cloexec fd descriptor present isPipe := by
    rcases withPipe_cases present with ⟨_, rfl⟩ | ⟨_, rfl⟩ | old
    · rfl
    · rfl
    · exact sound.cloexec fd descriptor old isPipe
  control := sound.control.keep fun fd held => by
    rcases held with same | same
    · rw [same]; exact withPipe_kept readFree writeFree same
    · rw [same]; exact withPipe_kept readFree writeFree same
  first := sound.first

theorem Holds.withPipe {table : Table OpenFile} {fds : PipeFds} {held pipe : Pipe}
    (holds : Holds table fds held) {read write : Nat} (readFree : table read = none)
    (writeFree : table write = none) : Holds (Shell.withPipe table pipe read write) fds held :=
  holds.keep fun fd opened => by
    rcases opened with same | same
    · rw [same]; exact withPipe_kept readFree writeFree same
    · rw [same]; exact withPipe_kept readFree writeFree same

theorem holds_withPipe {table : Table OpenFile} {pipe : Pipe} {read write : Nat}
    (readHigh : 1 < read) (writeHigh : 1 < write) (different : read ≠ write) :
    Holds (withPipe table pipe read write) { read, write } pipe :=
  ⟨read, write, readHigh, writeHigh, rfl, withPipe_read different, withPipe_write table pipe _ _⟩

theorem Forking.of_errorPipe {shell : ShellDescriptors} {starter : Starter} {index : Nat}
    {last : Bool} {calls : PipeCall} (succeeds : calls.succeeds)
    (sound : Sound shell.table starter index)
    (upstream : Upstream starter.table starter.prevfd index)
    (stage : last = false → Holds starter.table starter.pipefds (.stage index))
    (ends : ∀ fd descriptor, starter.table fd = some descriptor →
      descriptor.file.isStage = true →
        (fd : Int) = starter.prevfd ∨
          last = false ∧ ((fd : Int) = starter.pipefds.read ∨ (fd : Int) = starter.pipefds.write))
    {creation : Creation}
    (created : createPipe starter.table starter.errorPipe (.error index) calls = some creation) :
    creation.succeeded = true ∧
      Forking shell.table { starter with table := creation.table, errorPipe := creation.fds }
        index last := by
  obtain ⟨read, write, readFree, writeFree, different, rfl⟩ :=
    createPipe_succeeds succeeds created
  refine ⟨rfl, ?_⟩
  constructor
  next => exact sound.withPipe _ readFree writeFree starter.pipefds _
  next => exact upstream.keep fun fd descriptor present => withPipe_kept readFree writeFree present
  next => exact fun more => (stage more).withPipe readFree writeFree
  next =>
    exact holds_withPipe (sound.above readFree) (sound.above writeFree) different
  next =>
    intro fd descriptor present isStage
    rcases withPipe_cases present with ⟨_, rfl⟩ | ⟨_, rfl⟩ | old
    · simp [OpenFile.isStage] at isStage
    · simp [OpenFile.isStage] at isStage
    · exact ends fd descriptor old isStage

theorem startStage_forking {shell : ShellDescriptors} {starter : Starter} {index : Nat}
    {last : Bool} {calls : StageCalls} (looping : Looping shell.table starter index)
    (succeed : calls.Succeed last) {progress : Progress}
    (ran : startStage starter index last calls = some progress) :
    ∃ forked, Forking shell.table forked index last ∧ forked.children = starter.children ∧
      progress = parentStage
        { forked with children := forked.children ++ [childTable forked last] } last false := by
  unfold startStage at ran
  simp only [Option.bind_eq_bind, Option.bind_eq_some_iff] at ran
  obtain ⟨creation, created, ran⟩ := ran
  cases last with
  | true =>
    simp only [createStagePipe, if_true, Option.some.injEq] at created
    subst created
    simp only [Bool.not_true, Bool.false_eq_true, if_false, Option.bind_eq_some_iff] at ran
    obtain ⟨creation, created, ran⟩ := ran
    have unused : true = false → Holds starter.table starter.pipefds (.stage index) := by simp
    obtain ⟨made, forking⟩ := Forking.of_errorPipe succeed.errorPipe looping.sound
      looping.upstream unused (fun fd descriptor present isStage =>
        Or.inl (looping.ends fd descriptor present isStage)) created
    refine ⟨_, forking, rfl, ?_⟩
    simpa [made, succeed.forked, succeed.reported] using ran.symm
  | false =>
    simp only [createStagePipe, Bool.false_eq_true, if_false] at created
    obtain ⟨read, write, readFree, writeFree, different, rfl⟩ :=
      createPipe_succeeds (succeed.stagePipe rfl) created
    simp only [Bool.not_true, Bool.false_eq_true, if_false, Option.bind_eq_some_iff] at ran
    obtain ⟨creation, created, ran⟩ := ran
    have sound := looping.sound.withPipe (.stage index) readFree writeFree { read, write }
      starter.errorPipe
    obtain ⟨made, forking⟩ := Forking.of_errorPipe succeed.errorPipe sound
      (looping.upstream.keep fun fd descriptor present => withPipe_kept readFree writeFree present)
      (fun _ => holds_withPipe (looping.sound.above readFree) (looping.sound.above writeFree)
        different)
      (fun fd descriptor present isStage => by
        rcases withPipe_cases present with ⟨rfl, _⟩ | ⟨rfl, _⟩ | old
        · exact Or.inr ⟨rfl, Or.inl rfl⟩
        · exact Or.inr ⟨rfl, Or.inr rfl⟩
        · exact Or.inl (looping.ends fd descriptor old isStage))
      created
    refine ⟨_, forking, rfl, ?_⟩
    simpa [made, succeed.forked, succeed.reported] using ran.symm

theorem ne_of_files {table : Table OpenFile} {fd other : Nat}
    {descriptor different : Descriptor OpenFile} (left : table fd = some descriptor)
    (right : table other = some different) (apart : descriptor ≠ different) :
    (fd : Int) ≠ other := by
  intro same
  rw [Int.ofNat.inj same, right] at left
  exact apart (Option.some.inj left).symm

theorem getD_close_shrinks (table : Table OpenFile) (fd : Int) :
    Shrinks table ((close table fd).getD table) := by
  cases done : close table fd with
  | none => exact Shrinks.refl table
  | some closed => exact shrinks_close done

theorem getD_close_other {table : Table OpenFile} {fd : Int} {other : Nat}
    (different : fd ≠ other) : ((close table fd).getD table) other = table other := by
  cases done : close table fd with
  | none => rfl
  | some closed => exact close_other done different

theorem closeControl_some {table : Table OpenFile} {fds : PipeFds} (first : Bool)
    {read write : Nat} (fdsEq : fds = { read, write }) (readHigh : 1 < read)
    (writeHigh : 1 < write) (opened : (table write).isSome) :
    ∃ child, closeControl table fds first = some child ∧ Shrinks table child ∧
      ∀ fd : Nat, fd < 2 → child fd = table fd := by
  subst fdsEq
  cases first with
  | true =>
    have ended := closeEnd_open (by omega) opened
    refine ⟨_, by simp [closeControl, closePipe_write, ended]; rfl, ?_, fun fd low => ?_⟩
    next => exact (shrinks_update_none table write).trans (getD_close_shrinks _ _)
    next =>
      rw [getD_close_other (by simp only [ne_eq]; omega)]
      exact Function.update_of_ne (by omega) _ _
  | false =>
    refine ⟨_, by simp [closeControl]; rfl, getD_close_shrinks _ _, fun fd low => ?_⟩
    exact getD_close_other (by simp only [ne_eq]; omega)

end Akiso.Shell
