import Akiso.Shared.I386

set_option autoImplicit false

/-!
# Programs of the i386 that call functions

A program of lines around the functions that it calls, and what it has put out. A call runs the
function from its first line until it returns to the line behind the call.
-/

namespace Akiso.I386

/-- `unless` jumps when the condition does not hold, and `testByte` looks at the low byte. -/
inductive Line (L C : Type) where
  | label (name : L)
  | plain (instruction : Instruction L)
  | jump (target : L)
  | unless (condition : Condition) (target : L)
  | testByte (register : Register)
  | call (function : C)
  deriving DecidableEq, Repr

section Programs

variable {L C O : Type} [DecidableEq L] [DecidableEq C]

/-- What the functions do to the machine and to what has been put out, from their first line; and
the addresses of the lines, in the words that calls push. -/
structure Library (C O : Type) where
  calls : C → Machine × List O → Machine × List O → Prop
  address : Nat → Word

def Machine.goto (machine : Machine) (lines : List (Line L C)) (target : L) : Machine :=
  { machine with place := .line (lines.idxOf (.label target)) }

def Flags.ofByte (byte : Byte) : Flags where
  zero := byte == 0#8
  sign := byte.msb
  overflow := false

def Machine.follow (machine : Machine) (undefined : Machine → Flags) (lines : List (Line L C)) :
    Line L C → Option Machine
  | .label _ => some machine
  | .plain instruction => machine.execute [] undefined instruction
  | .jump target => some (machine.goto lines target)
  | .unless condition target =>
    some (if machine.flags.holds condition then machine else machine.goto lines target)
  | .testByte register =>
    some { machine with flags := .ofByte ((machine.get register).setWidth 8) }
  | .call _ => none

def Machine.push (machine : Machine) (value : Word) : Machine :=
  { machine with
    esp := machine.esp - 4#32
    memory := writeWord machine.memory (machine.esp - 4#32) value }

inductive Line.Runs (lines : List (Line L C)) (undefined : Machine → Flags)
    (library : Library C O) : Machine × List O → Machine × List O → Prop where
  | refl {state : Machine × List O} : Runs lines undefined library state state
  | line {machine next : Machine} {output : List O} {last : Machine × List O} {index : Nat}
      {line : Line L C} : machine.place = .line index → lines[index]? = some line →
      { machine with place := .line (index + 1) }.follow undefined lines line = some next →
      Runs lines undefined library (next, output) last →
      Runs lines undefined library (machine, output) last
  | call {machine returned : Machine} {output more : List O} {last : Machine × List O}
      {index : Nat} {function : C} : machine.place = .line index →
      lines[index]? = some (.call function) →
      library.calls function (machine.push (library.address (index + 1)), output)
        (returned, more) →
      returned.place = .returned (library.address (index + 1)) →
      Runs lines undefined library ({ returned with place := .line (index + 1) }, more) last →
      Runs lines undefined library (machine, output) last

theorem Machine.unless_passed {machine : Machine} {undefined : Machine → Flags}
    {lines : List (Line L C)} {condition : Condition} {target : L}
    (holds : machine.flags.holds condition = true) :
    machine.follow undefined lines (.unless condition target) = some machine := by
  simp [follow, holds]

theorem Machine.unless_taken {machine : Machine} {undefined : Machine → Flags}
    {lines : List (Line L C)} {condition : Condition} {target : L}
    (fails : machine.flags.holds condition = false) :
    machine.follow undefined lines (.unless condition target) =
      some (machine.goto lines target) := by
  simp [follow, fails]

theorem Line.Runs.trans {lines : List (Line L C)} {undefined : Machine → Flags}
    {library : Library C O} {first middle last : Machine × List O}
    (early : Line.Runs lines undefined library first middle)
    (late : Line.Runs lines undefined library middle last) :
    Line.Runs lines undefined library first last := by
  induction early with
  | refl => exact late
  | line place found followed _ ih => exact .line place found followed (ih late)
  | call place found called back _ ih => exact .call place found called back (ih late)

end Programs

theorem execute_memory {L : Type} [DecidableEq L] {code : List (Instruction L)}
    {undefined : Machine → Flags} {machine next : Machine} {instruction : Instruction L}
    (executed : machine.execute code undefined instruction = some next) :
    next.memory = machine.memory ∨ ∃ address ∈ machine.touched instruction, ∃ value,
      next.memory = writeWord machine.memory address value := by
  have stored : ∀ (value : Word) (target : Operand),
      (machine.store value target).memory = machine.memory ∨
        ∃ address ∈ machine.operandWords target,
          (machine.store value target).memory = writeWord machine.memory address value := by
    intro value target
    cases target with
    | register name => cases name <;> exact .inl rfl
    | immediate number => exact .inl rfl
    | dword base displacement => exact .inr ⟨_, List.mem_singleton_self _, rfl⟩
  cases instruction with
  | mov target source =>
    cases executed
    refine (stored _ target).imp_right fun ⟨address, member, same⟩ => ?_
    exact ⟨address, List.mem_append_left _ member, _, same⟩
  | add target source =>
    cases executed
    refine (stored _ target).imp_right fun ⟨address, member, same⟩ => ?_
    exact ⟨address, List.mem_append_left _ member, _, same⟩
  | sub target source =>
    cases executed
    refine (stored _ target).imp_right fun ⟨address, member, same⟩ => ?_
    exact ⟨address, List.mem_append_left _ member, _, same⟩
  | push source =>
    cases executed
    exact .inr ⟨_, List.mem_cons_self, _, rfl⟩
  | idiv divisor =>
    simp only [Machine.execute, Machine.divide] at executed
    split at executed <;> cases executed
    exact .inl rfl
  | jcc condition target =>
    cases executed
    split <;> exact .inl rfl
  | _ =>
    cases executed
    exact .inl rfl

theorem operandWords_place (machine : Machine) (place : Place) (operand : Operand) :
    { machine with place }.operandWords operand = machine.operandWords operand := by
  cases operand with
  | dword base displacement => cases base <;> rfl
  | _ => rfl

theorem touched_place {L : Type} (machine : Machine) (place : Place)
    (instruction : Instruction L) :
    { machine with place }.touched instruction = machine.touched instruction := by
  cases instruction <;> simp only [Machine.touched, operandWords_place]

theorem Runs.keeps {L : Type} [DecidableEq L] {code : List (Instruction L)}
    {undefined : Machine → Flags} {permitted : Machine → Instruction L → Prop} {address : Word}
    (apart : ∀ machine instruction, permitted machine instruction →
      ∀ word ∈ machine.touched instruction, Apart address word)
    {machine last : Machine} (runs : Runs code undefined permitted machine last) :
    readWord last.memory address = readWord machine.memory address := by
  induction runs with
  | refl => rfl
  | @step machine next last index instruction place found proper stepped _ ih =>
    have executed : { machine with place := .line (index + 1) }.execute code undefined
        instruction = some next := by
      simpa [Machine.step, place, found] using stepped
    rw [ih]
    rcases execute_memory executed with same | ⟨word, member, value, same⟩
    · rw [same]
    · rw [same]
      refine readWord_of_apart _ _ (apart machine instruction proper word ?_)
      rwa [touched_place] at member

end Akiso.I386
