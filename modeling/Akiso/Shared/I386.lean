import Mathlib.Logic.Function.Basic

set_option autoImplicit false

/-!
# The i386 processor

The part of the instruction set that the programs of this project use. The code is a list of
instructions between labels, apart from the memory, which is of bytes; addresses wrap around.
-/

namespace Akiso.I386

abbrev Byte := BitVec 8

abbrev Word := BitVec 32

abbrev Memory := Word → Byte

/-- The flags that the conditions of jumps look at here. -/
structure Flags where
  zero : Bool
  sign : Bool
  overflow : Bool
  deriving DecidableEq, Repr

/-- A line of the code, or, after RET, an address outside of it. -/
inductive Place where
  | line (index : Nat)
  | returned (address : Word)
  deriving DecidableEq, Repr

structure Machine where
  eax : Word
  edx : Word
  ebp : Word
  esp : Word
  flags : Flags
  place : Place
  memory : Memory

inductive Register where
  | eax | edx | ebp | esp
  deriving DecidableEq, Repr

inductive Operand where
  | register (name : Register)
  | immediate (value : Word)
  | dword (base : Register) (displacement : Word)
  deriving DecidableEq, Repr

inductive Condition where
  | notEqual
  | greater
  | less
  deriving DecidableEq, Repr

inductive Instruction (L : Type) where
  | label (name : L)
  | push (source : Operand)
  | mov (target source : Operand)
  | add (target source : Operand)
  | sub (target source : Operand)
  | cmp (first second : Operand)
  | test (first second : Operand)
  | cdq
  | idiv (divisor : Operand)
  | jmp (target : L)
  | jcc (condition : Condition) (target : L)
  | leave
  | ret
  deriving DecidableEq, Repr

def readWord (memory : Memory) (address : Word) : Word :=
  memory (address + 3#32) ++ memory (address + 2#32) ++ memory (address + 1#32) ++ memory address

def writeWord (memory : Memory) (address value : Word) : Memory :=
  Function.update (Function.update (Function.update (Function.update memory
    address (value.setWidth 8))
    (address + 1#32) ((value >>> 8).setWidth 8))
    (address + 2#32) ((value >>> 16).setWidth 8))
    (address + 3#32) ((value >>> 24).setWidth 8)

@[simp] def Machine.get (machine : Machine) : Register → Word
  | .eax => machine.eax
  | .edx => machine.edx
  | .ebp => machine.ebp
  | .esp => machine.esp

@[simp] def Machine.set (machine : Machine) (value : Word) : Register → Machine
  | .eax => { machine with eax := value }
  | .edx => { machine with edx := value }
  | .ebp => { machine with ebp := value }
  | .esp => { machine with esp := value }

@[simp] def Machine.address (machine : Machine) (base : Register) (displacement : Word) : Word :=
  machine.get base + displacement

@[simp] def Machine.value (machine : Machine) : Operand → Word
  | .register name => machine.get name
  | .immediate value => value
  | .dword base displacement => readWord machine.memory (machine.address base displacement)

-- An immediate is no target.
@[simp] def Machine.store (machine : Machine) (value : Word) : Operand → Machine
  | .register name => machine.set value name
  | .immediate _ => machine
  | .dword base displacement =>
    { machine with
      memory := writeWord machine.memory (machine.address base displacement) value }

def Flags.ofResult (result : Word) (overflow : Bool) : Flags where
  zero := result == 0#32
  sign := result.msb
  overflow := overflow

def Flags.sum (first second : Word) : Flags :=
  .ofResult (first + second) (first.msb == second.msb && (first + second).msb != first.msb)

def Flags.difference (first second : Word) : Flags :=
  .ofResult (first - second) (first.msb != second.msb && (first - second).msb != first.msb)

def Flags.holds (flags : Flags) : Condition → Bool
  | .notEqual => !flags.zero
  | .greater => !flags.zero && flags.sign == flags.overflow
  | .less => flags.sign != flags.overflow

def extension (value : Word) : Word :=
  if value.msb then 0xFFFFFFFF#32 else 0#32

section Execute

-- `undefined` are the flags that a division leaves, which the processor does not define.
variable {L : Type} [DecidableEq L] (code : List (Instruction L)) (undefined : Machine → Flags)

def Machine.jump (machine : Machine) (target : L) : Machine :=
  { machine with place := .line (code.idxOf (.label target)) }

def Machine.divide (machine : Machine) (divisor : Word) : Option Machine :=
  let dividend := (machine.edx ++ machine.eax).toInt
  let quotient := dividend.tdiv divisor.toInt
  if divisor = 0#32 ∨ quotient < -2147483648 ∨ 2147483647 < quotient then none
  else some { machine with
    eax := BitVec.ofInt 32 quotient
    edx := BitVec.ofInt 32 (dividend.tmod divisor.toInt)
    flags := undefined machine }

def Machine.execute (machine : Machine) : Instruction L → Option Machine
  | .label _ => some machine
  | .push source =>
    let esp := machine.esp - 4#32
    some { machine with esp, memory := writeWord machine.memory esp (machine.value source) }
  | .mov target source => some (machine.store (machine.value source) target)
  | .add target source =>
    let first := machine.value target
    let second := machine.value source
    some { machine.store (first + second) target with flags := .sum first second }
  | .sub target source =>
    let first := machine.value target
    let second := machine.value source
    some { machine.store (first - second) target with flags := .difference first second }
  | .cmp first second =>
    some { machine with flags := .difference (machine.value first) (machine.value second) }
  | .test first second =>
    some { machine with flags := .ofResult (machine.value first &&& machine.value second) false }
  | .cdq => some { machine with edx := extension machine.eax }
  | .idiv divisor => machine.divide undefined (machine.value divisor)
  | .jmp target => some (machine.jump code target)
  | .jcc condition target =>
    some (if machine.flags.holds condition then machine.jump code target else machine)
  | .leave =>
    some { machine with esp := machine.ebp + 4#32, ebp := readWord machine.memory machine.ebp }
  | .ret =>
    some { machine with
      esp := machine.esp + 4#32
      place := .returned (readWord machine.memory machine.esp) }

def Machine.step (machine : Machine) : Option Machine :=
  match machine.place with
  | .returned _ => none
  | .line index => do
    let instruction ← code[index]?
    { machine with place := .line (index + 1) }.execute code undefined instruction

end Execute

@[simp] def Machine.operandWords (machine : Machine) : Operand → List Word
  | .dword base displacement => [machine.address base displacement]
  | _ => []

@[simp] def Machine.touched {L : Type} (machine : Machine) : Instruction L → List Word
  | .push source => (machine.esp - 4#32) :: machine.operandWords source
  | .mov first second | .add first second | .sub first second | .cmp first second
  | .test first second => machine.operandWords first ++ machine.operandWords second
  | .idiv divisor => machine.operandWords divisor
  | .leave => [machine.ebp]
  | .ret => [machine.esp]
  | .label _ | .cdq | .jmp _ | .jcc _ _ => []

inductive Runs {L : Type} [DecidableEq L] (code : List (Instruction L))
    (undefined : Machine → Flags) (permitted : Machine → Instruction L → Prop) :
    Machine → Machine → Prop where
  | refl {machine : Machine} : Runs code undefined permitted machine machine
  | step {machine next last : Machine} {index : Nat} {instruction : Instruction L} :
      machine.place = .line index → code[index]? = some instruction →
      permitted machine instruction → machine.step code undefined = some next →
      Runs code undefined permitted next last → Runs code undefined permitted machine last

theorem Machine.jcc_taken {L : Type} [DecidableEq L] {code : List (Instruction L)}
    {undefined : Machine → Flags} {machine : Machine} {condition : Condition} {target : L}
    (holds : machine.flags.holds condition = true) :
    machine.execute code undefined (.jcc condition target) = some (machine.jump code target) := by
  simp [execute, holds]

theorem Machine.jcc_passed {L : Type} [DecidableEq L] {code : List (Instruction L)}
    {undefined : Machine → Flags} {machine : Machine} {condition : Condition} {target : L}
    (fails : machine.flags.holds condition = false) :
    machine.execute code undefined (.jcc condition target) = some machine := by
  simp [execute, fails]

theorem Runs.line {L : Type} [DecidableEq L] {code : List (Instruction L)}
    {undefined : Machine → Flags} {permitted : Machine → Instruction L → Prop}
    {machine next last : Machine} {index : Nat} {instruction : Instruction L}
    (place : machine.place = .line index) (found : code[index]? = some instruction)
    (proper : permitted machine instruction)
    (executed : { machine with place := .line (index + 1) }.execute code undefined instruction =
      some next) (rest : Runs code undefined permitted next last) :
    Runs code undefined permitted machine last :=
  .step place found proper (by simp [Machine.step, place, found, executed]) rest

theorem Runs.trans {L : Type} [DecidableEq L] {code : List (Instruction L)}
    {undefined : Machine → Flags} {permitted : Machine → Instruction L → Prop}
    {machine middle last : Machine} (first : Runs code undefined permitted machine middle)
    (second : Runs code undefined permitted middle last) :
    Runs code undefined permitted machine last := by
  induction first with
  | refl => exact second
  | step place found proper stepped _ ih => exact .step place found proper stepped (ih second)

theorem word_bytes (value : Word) :
    (value >>> 24).setWidth 8 ++ (value >>> 16).setWidth 8 ++ (value >>> 8).setWidth 8 ++
      value.setWidth 8 = value := by
  apply BitVec.eq_of_toNat_eq
  have := value.isLt
  have joined {width : Nat} (high : BitVec width) (low : Byte) :
      (high ++ low).toNat = 256 * high.toNat + low.toNat := by
    rw [BitVec.toNat_append, ← Nat.shiftLeft_add_eq_or_of_lt low.isLt, Nat.shiftLeft_eq]
    omega
  simp only [joined, BitVec.toNat_setWidth, BitVec.toNat_ushiftRight, Nat.shiftRight_eq_div_pow]
  omega

@[simp] theorem readWord_writeWord (memory : Memory) (address value : Word) :
    readWord (writeWord memory address value) address = value := by
  have apart (first second : Word) (other : first ≠ second) : address + first ≠ address + second :=
    fun same => other (by simpa using same)
  have zero : address = address + 0#32 := by simp
  have first := apart 1#32 2#32 (by decide)
  have second := apart 1#32 3#32 (by decide)
  have third := apart 2#32 3#32 (by decide)
  have start (offset : Word) (other : 0#32 ≠ offset) : address ≠ address + offset :=
    fun same => apart _ _ other (zero ▸ same)
  simp only [readWord, writeWord, Function.update_self, Function.update_of_ne first,
    Function.update_of_ne second, Function.update_of_ne third,
    Function.update_of_ne (start 1#32 (by decide)), Function.update_of_ne (start 2#32 (by decide)),
    Function.update_of_ne (start 3#32 (by decide))]
  exact word_bytes value

def Apart (first second : Word) : Prop :=
  4 ≤ (first - second).toNat ∧ 4 ≤ (second - first).toNat

theorem readWord_of_apart (memory : Memory) (value : Word) {address other : Word}
    (apart : Apart address other) :
    readWord (writeWord memory other value) address = readWord memory address := by
  obtain ⟨above, below⟩ := apart
  have bytes (first second : Word) (small : first.toNat < 4) (few : second.toNat < 4) :
      address + first ≠ other + second := by
    intro same
    bv_omega
  have kept (offset : Word) (small : offset.toNat < 4) :
      writeWord memory other value (address + offset) = memory (address + offset) := by
    have zero := bytes offset 0#32 small (by decide)
    rw [BitVec.add_zero] at zero
    simp only [writeWord, Function.update_of_ne zero,
      Function.update_of_ne (bytes offset 1#32 small (by decide)),
      Function.update_of_ne (bytes offset 2#32 small (by decide)),
      Function.update_of_ne (bytes offset 3#32 small (by decide))]
  have first := kept 0#32 (by decide)
  rw [BitVec.add_zero] at first
  simp only [readWord, first, kept 1#32 (by decide), kept 2#32 (by decide), kept 3#32 (by decide)]

theorem toInt_range (value : Word) : -2147483648 ≤ value.toInt ∧ value.toInt ≤ 2147483647 := by
  have := value.isLt
  rw [BitVec.toInt_eq_toNat_cond]
  constructor <;> split <;> omega

theorem ofInt_eq_zero {value : Int} (low : -2147483648 ≤ value) (high : value ≤ 2147483647) :
    BitVec.ofInt 32 value = 0#32 ↔ value = 0 := by
  rw [← BitVec.toInt_inj, BitVec.toInt_ofInt, Int.bmod_eq_of_le (by omega) (by omega)]
  rfl

theorem holds_less (first second : Word) :
    (Flags.difference first second).holds .less = decide (first.toInt < second.toInt) := by
  have one := toInt_range first
  have two := toInt_range second
  have wrapped : (first - second).toInt = (first.toInt - second.toInt).bmod 4294967296 :=
    BitVec.toInt_sub
  rw [Int.bmod_def] at wrapped
  simp only [Flags.difference, Flags.ofResult, Flags.holds, BitVec.msb_eq_toInt]
  generalize (first - second).toInt = difference at wrapped ⊢
  -- The sign of the difference is right unless the signs of the operands differ from each other.
  by_cases left : first.toInt < 0 <;> by_cases right : second.toInt < 0 <;>
    by_cases sign : difference < 0 <;> simp [left, right, sign] <;>
    split at wrapped <;> omega

theorem holds_greater (first second : Word) :
    (Flags.difference first second).holds .greater = decide (second.toInt < first.toInt) := by
  have less := holds_less first second
  have zero : (first - second == 0#32) = decide (first.toInt = second.toInt) := by
    rw [Bool.eq_iff_iff, beq_iff_eq, decide_eq_true_eq, BitVec.toInt_inj]
    constructor <;> intro same <;> bv_omega
  simp only [Flags.holds, Flags.difference, Flags.ofResult, zero, bne] at less ⊢
  rw [Bool.not_eq_eq_eq_not] at less
  rw [less]
  by_cases above : second.toInt < first.toInt <;> simp [above] <;> omega

theorem holds_notEqual (value : Word) (overflow : Bool) :
    (Flags.ofResult (value &&& value) overflow).holds .notEqual = decide (value ≠ 0#32) := by
  rw [Bool.eq_iff_iff]
  simp [Flags.ofResult, Flags.holds]

theorem toInt_extended (value : Word) : (extension value ++ value).toInt = value.toInt := by
  have small := value.isLt
  have joined : (extension value ++ value).toNat =
      4294967296 * (extension value).toNat + value.toNat := by
    rw [BitVec.toNat_append, ← Nat.shiftLeft_add_eq_or_of_lt small, Nat.shiftLeft_eq]
    omega
  rw [BitVec.toInt_eq_toNat_cond, BitVec.toInt_eq_toNat_cond, joined]
  have sign := BitVec.msb_eq_decide value
  cases negative : value.msb with
  | true =>
    rw [negative, Bool.true_eq, decide_eq_true_eq] at sign
    rw [extension, negative, if_pos rfl]
    simp only [BitVec.toNat_ofNat]
    split <;> split <;> omega
  | false =>
    rw [negative, Bool.false_eq, decide_eq_false_iff_not] at sign
    rw [extension, negative, if_neg Bool.false_ne_true]
    simp only [BitVec.toNat_ofNat]
    split <;> split <;> omega

theorem Machine.divide_extended (undefined : Machine → Flags) {machine : Machine} {divisor : Word}
    (extended : machine.edx = extension machine.eax) (positive : 0 < divisor.toInt) :
    machine.divide undefined divisor = some { machine with
      eax := BitVec.ofInt 32 (machine.eax.toInt.tdiv divisor.toInt)
      edx := BitVec.ofInt 32 (machine.eax.toInt.tmod divisor.toInt)
      flags := undefined machine } := by
  have dividend : (machine.edx ++ machine.eax).toInt = machine.eax.toInt := by
    rw [extended, toInt_extended]
  have range := toInt_range machine.eax
  have nonzero : divisor ≠ 0#32 := by
    rintro rfl
    exact absurd positive (by decide)
  have bound : (machine.eax.toInt.tdiv divisor.toInt).natAbs ≤ machine.eax.toInt.natAbs :=
    Int.natAbs_tdiv_le_natAbs _ _
  have low : ¬ machine.eax.toInt.tdiv divisor.toInt < -2147483648 := by omega
  have high : ¬ 2147483647 < machine.eax.toInt.tdiv divisor.toInt := by
    by_cases negative : machine.eax.toInt < 0
    · have opposite : 0 ≤ (-machine.eax.toInt).tdiv divisor.toInt :=
        Int.tdiv_nonneg (by omega) (by omega)
      rw [Int.neg_tdiv] at opposite
      omega
    · omega
  simp [divide, dividend, nonzero, low, high]

theorem remainder_eq_zero (dividend : Word) {divisor : Word} (positive : 0 < divisor.toInt) :
    BitVec.ofInt 32 (dividend.toInt.tmod divisor.toInt) = 0#32 ↔
      dividend.toInt.tmod divisor.toInt = 0 := by
  have range := toInt_range divisor
  have size := Int.natAbs_tmod dividend.toInt divisor.toInt
  have small := Nat.mod_lt dividend.toInt.natAbs (show 0 < divisor.toInt.natAbs by omega)
  exact ofInt_eq_zero (by omega) (by omega)

end Akiso.I386
