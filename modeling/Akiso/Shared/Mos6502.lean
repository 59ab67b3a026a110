import Mathlib.Data.BitVec
import Mathlib.Logic.Function.Basic

set_option autoImplicit false

/-!
# The 6502 processor

The part of the instruction set that the programs of this project use. Nothing interrupts the
processor, and arithmetic in decimal mode is left out.
-/

namespace Akiso.Mos6502

abbrev Byte := BitVec 8

abbrev Word := BitVec 16

abbrev Memory := Word → Byte

structure Flags where
  negative : Bool
  overflow : Bool
  decimal : Bool
  interrupt : Bool
  zero : Bool
  carry : Bool
  deriving DecidableEq, Repr

structure Cpu where
  a : Byte
  x : Byte
  y : Byte
  s : Byte
  p : Flags
  pc : Word
  memory : Memory

inductive Operation where
  | adc | and | asl | bcc | bcs | beq | bmi | bne | bpl | clc | cld | dec | dey | eor | inc | jmp
  | jsr | lda | ldx | ldy | lsr | ora | pha | php | pla | plp | rol | ror | rts | sbc | sec | sta
  | stx | sty | tax | tay | tya
  deriving DecidableEq, Repr

inductive Mode where
  | implied
  | accumulator
  | immediate
  | zeroPage
  | zeroPageX
  | absolute
  | absoluteX
  | absoluteY
  | indirectX
  | indirectY
  | indirect
  | relative
  deriving DecidableEq, Repr

/-- The operand of a branch is where it leads to. -/
structure Instruction where
  operation : Operation
  mode : Mode
  operand : Word
  deriving DecidableEq, Repr

@[simp] def Mode.length : Mode → Nat
  | .implied | .accumulator => 1
  | .immediate | .zeroPage | .zeroPageX | .indirectX | .indirectY | .relative => 2
  | .absolute | .absoluteX | .absoluteY | .indirect => 3

def opcodes : List (Byte × Operation × Mode) :=
  [(0x08, .php, .implied), (0x0A, .asl, .accumulator), (0x10, .bpl, .relative),
    (0x15, .ora, .zeroPageX), (0x16, .asl, .zeroPageX), (0x18, .clc, .implied),
    (0x20, .jsr, .absolute), (0x28, .plp, .implied), (0x29, .and, .immediate),
    (0x30, .bmi, .relative), (0x35, .and, .zeroPageX), (0x36, .rol, .zeroPageX),
    (0x38, .sec, .implied), (0x45, .eor, .zeroPage), (0x48, .pha, .implied),
    (0x4A, .lsr, .accumulator), (0x4C, .jmp, .absolute), (0x51, .eor, .indirectY),
    (0x56, .lsr, .zeroPageX), (0x60, .rts, .implied), (0x65, .adc, .zeroPage),
    (0x68, .pla, .implied), (0x69, .adc, .immediate), (0x6C, .jmp, .indirect),
    (0x75, .adc, .zeroPageX), (0x76, .ror, .zeroPageX), (0x81, .sta, .indirectX),
    (0x84, .sty, .zeroPage), (0x85, .sta, .zeroPage), (0x86, .stx, .zeroPage),
    (0x88, .dey, .implied), (0x8C, .sty, .absolute), (0x8D, .sta, .absolute),
    (0x8E, .stx, .absolute), (0x90, .bcc, .relative), (0x91, .sta, .indirectY),
    (0x95, .sta, .zeroPageX), (0x98, .tya, .implied), (0x99, .sta, .absoluteY),
    (0xA0, .ldy, .immediate), (0xA1, .lda, .indirectX), (0xA2, .ldx, .immediate),
    (0xA5, .lda, .zeroPage), (0xA8, .tay, .implied), (0xA9, .lda, .immediate),
    (0xAA, .tax, .implied), (0xAC, .ldy, .absolute), (0xAD, .lda, .absolute),
    (0xAE, .ldx, .absolute), (0xB0, .bcs, .relative), (0xB1, .lda, .indirectY),
    (0xB5, .lda, .zeroPageX), (0xB9, .lda, .absoluteY), (0xBD, .lda, .absoluteX),
    (0xD0, .bne, .relative), (0xD6, .dec, .zeroPageX), (0xD8, .cld, .implied),
    (0xE5, .sbc, .zeroPage), (0xE6, .inc, .zeroPage), (0xF0, .beq, .relative),
    (0xF5, .sbc, .zeroPageX), (0xF6, .inc, .zeroPageX)]

def operandAt (memory : Memory) (pc : Word) : Mode → Word
  | .implied | .accumulator => 0#16
  | .relative => pc + 2#16 + (memory (pc + 1#16)).signExtend 16
  | .immediate | .zeroPage | .zeroPageX | .indirectX | .indirectY =>
    (memory (pc + 1#16)).setWidth 16
  | .absolute | .absoluteX | .absoluteY | .indirect => memory (pc + 2#16) ++ memory (pc + 1#16)

def decode (memory : Memory) (pc : Word) : Option Instruction :=
  (opcodes.find? fun row => row.1 = memory pc).map fun (_, operation, mode) =>
    { operation, mode, operand := operandAt memory pc mode }

def Instruction.bytes (instruction : Instruction) (pc : Word) : List Byte :=
  match opcodes.find? fun row => row.2 = (instruction.operation, instruction.mode) with
  | none => []
  | some (opcode, _) =>
    opcode ::
      match instruction.mode with
      | .implied | .accumulator => []
      | .relative => [(instruction.operand - (pc + 2#16)).setWidth 8]
      | .immediate | .zeroPage | .zeroPageX | .indirectX | .indirectY =>
        [instruction.operand.setWidth 8]
      | .absolute | .absoluteX | .absoluteY | .indirect =>
        [instruction.operand.setWidth 8, (instruction.operand >>> 8).setWidth 8]

def Flags.result (p : Flags) (value : Byte) : Flags :=
  { p with negative := value.msb, zero := value == 0 }

-- PHP pushes the two bits that are no flags as ones.
def Flags.toByte (p : Flags) : Byte :=
  BitVec.ofBool p.negative ++ BitVec.ofBool p.overflow ++ 3#2 ++ BitVec.ofBool p.decimal ++
    BitVec.ofBool p.interrupt ++ BitVec.ofBool p.zero ++ BitVec.ofBool p.carry

def Flags.ofByte (byte : Byte) : Flags where
  negative := byte.getLsbD 7
  overflow := byte.getLsbD 6
  decimal := byte.getLsbD 3
  interrupt := byte.getLsbD 2
  zero := byte.getLsbD 1
  carry := byte.getLsbD 0

-- The second byte of a pointer in page zero is in page zero.
def pointerAt (memory : Memory) (place : Byte) : Word :=
  memory ((place + 1#8).setWidth 16) ++ memory (place.setWidth 16)

def stackAddress (s : Byte) : Word :=
  1#8 ++ s

def Cpu.address (cpu : Cpu) (instruction : Instruction) : Word :=
  match instruction.mode with
  | .zeroPageX => (instruction.operand.setWidth 8 + cpu.x).setWidth 16
  | .absoluteX => instruction.operand + cpu.x.setWidth 16
  | .absoluteY => instruction.operand + cpu.y.setWidth 16
  | .indirectX => pointerAt cpu.memory (instruction.operand.setWidth 8 + cpu.x)
  | .indirectY => pointerAt cpu.memory (instruction.operand.setWidth 8) + cpu.y.setWidth 16
  -- The second byte of the pointer is in the page of the first.
  | .indirect =>
    cpu.memory ((instruction.operand >>> 8).setWidth 8 ++ (instruction.operand.setWidth 8 + 1#8)) ++
      cpu.memory instruction.operand
  | _ => instruction.operand

def Cpu.value (cpu : Cpu) (instruction : Instruction) : Byte :=
  match instruction.mode with
  | .accumulator => cpu.a
  | .immediate => instruction.operand.setWidth 8
  | _ => cpu.memory (cpu.address instruction)

def shifted (operation : Operation) (carry : Bool) (value : Byte) : Byte × Bool :=
  match operation with
  | .asl => (value <<< 1, value.msb)
  | .rol => (value <<< 1 ||| (BitVec.ofBool carry).setWidth 8, value.msb)
  | .lsr => (value >>> 1, value.getLsbD 0)
  | _ => (value >>> 1 ||| (BitVec.ofBool carry).setWidth 8 <<< 7, value.getLsbD 0)

def Cpu.add (cpu : Cpu) (value : Byte) : Cpu :=
  let sum := cpu.a.toNat + value.toNat + cpu.p.carry.toNat
  let result := BitVec.ofNat 8 sum
  { cpu with
    a := result
    p := { cpu.p.result result with
           carry := decide (256 ≤ sum)
           overflow := cpu.a.msb == value.msb && cpu.a.msb != result.msb } }

def Cpu.branch (cpu : Cpu) (taken : Bool) (target : Word) : Cpu :=
  if taken then { cpu with pc := target } else cpu

def Cpu.shift (cpu : Cpu) (instruction : Instruction) : Cpu :=
  let (result, carry) := shifted instruction.operation cpu.p.carry (cpu.value instruction)
  { cpu with
    a := if instruction.mode = .accumulator then result else cpu.a
    p := { cpu.p.result result with carry } }

-- What an instruction does to the registers; pc is past the instruction already.
def Cpu.registers (cpu : Cpu) (instruction : Instruction) : Cpu :=
  let value := cpu.value instruction
  match instruction.operation with
  | .adc => cpu.add value
  | .sbc => cpu.add (~~~value)
  | .and => { cpu with a := cpu.a &&& value, p := cpu.p.result (cpu.a &&& value) }
  | .eor => { cpu with a := cpu.a ^^^ value, p := cpu.p.result (cpu.a ^^^ value) }
  | .ora => { cpu with a := cpu.a ||| value, p := cpu.p.result (cpu.a ||| value) }
  | .asl | .lsr | .rol | .ror => cpu.shift instruction
  | .inc => { cpu with p := cpu.p.result (value + 1#8) }
  | .dec => { cpu with p := cpu.p.result (value - 1#8) }
  | .lda => { cpu with a := value, p := cpu.p.result value }
  | .ldx => { cpu with x := value, p := cpu.p.result value }
  | .ldy => { cpu with y := value, p := cpu.p.result value }
  | .sta | .stx | .sty => cpu
  | .tax => { cpu with x := cpu.a, p := cpu.p.result cpu.a }
  | .tay => { cpu with y := cpu.a, p := cpu.p.result cpu.a }
  | .tya => { cpu with a := cpu.y, p := cpu.p.result cpu.y }
  | .dey => { cpu with y := cpu.y - 1#8, p := cpu.p.result (cpu.y - 1#8) }
  | .clc => { cpu with p := { cpu.p with carry := false } }
  | .sec => { cpu with p := { cpu.p with carry := true } }
  | .cld => { cpu with p := { cpu.p with decimal := false } }
  | .bcc => cpu.branch (!cpu.p.carry) instruction.operand
  | .bcs => cpu.branch cpu.p.carry instruction.operand
  | .bne => cpu.branch (!cpu.p.zero) instruction.operand
  | .beq => cpu.branch cpu.p.zero instruction.operand
  | .bpl => cpu.branch (!cpu.p.negative) instruction.operand
  | .bmi => cpu.branch cpu.p.negative instruction.operand
  | .jmp => { cpu with pc := cpu.address instruction }
  | .jsr => { cpu with pc := instruction.operand, s := cpu.s - 2#8 }
  | .rts =>
    let back := cpu.memory (stackAddress (cpu.s + 2#8)) ++ cpu.memory (stackAddress (cpu.s + 1#8))
    { cpu with pc := back + 1#16, s := cpu.s + 2#8 }
  | .pha | .php => { cpu with s := cpu.s - 1#8 }
  | .pla =>
    let pulled := cpu.memory (stackAddress (cpu.s + 1#8))
    { cpu with a := pulled, p := cpu.p.result pulled, s := cpu.s + 1#8 }
  | .plp =>
    { cpu with p := Flags.ofByte (cpu.memory (stackAddress (cpu.s + 1#8))), s := cpu.s + 1#8 }

def Cpu.writes (cpu : Cpu) (instruction : Instruction) : List (Word × Byte) :=
  let address := cpu.address instruction
  let value := cpu.value instruction
  match instruction.operation with
  | .sta => [(address, cpu.a)]
  | .stx => [(address, cpu.x)]
  | .sty => [(address, cpu.y)]
  | .inc => [(address, value + 1#8)]
  | .dec => [(address, value - 1#8)]
  | .asl | .lsr | .rol | .ror =>
    if instruction.mode = .accumulator then []
    else [(address, (shifted instruction.operation cpu.p.carry value).1)]
  | .pha => [(stackAddress cpu.s, cpu.a)]
  | .php => [(stackAddress cpu.s, cpu.p.toByte)]
  | .jsr =>
    let back := cpu.pc - 1#16
    [(stackAddress cpu.s, (back >>> 8).setWidth 8), (stackAddress (cpu.s - 1#8), back.setWidth 8)]
  | _ => []

def store (memory : Memory) (writes : List (Word × Byte)) : Memory :=
  writes.foldl (fun memory write => Function.update memory write.1 write.2) memory

def Cpu.past (cpu : Cpu) (instruction : Instruction) : Cpu :=
  { cpu with pc := cpu.pc + BitVec.ofNat 16 instruction.mode.length }

def Cpu.execute (cpu : Cpu) (instruction : Instruction) : Cpu :=
  { (cpu.past instruction).registers instruction with
    memory := store cpu.memory ((cpu.past instruction).writes instruction) }

def Cpu.step (cpu : Cpu) : Option Cpu := do
  let instruction ← decode cpu.memory cpu.pc
  if cpu.p.decimal ∧ (instruction.operation = .adc ∨ instruction.operation = .sbc) then none
  else return cpu.execute instruction

def Cpu.returning (cpu : Cpu) (level : Byte) : Prop :=
  cpu.s = level ∧ (decode cpu.memory cpu.pc).map Instruction.operation = some .rts

instance (cpu : Cpu) (level : Byte) : Decidable (cpu.returning level) :=
  inferInstanceAs (Decidable (_ ∧ _))

-- Runs up to and including the RTS at this level of the stack.
def Cpu.runToReturn (level : Byte) : Nat → Cpu → Option Cpu
  | 0, _ => none
  | fuel + 1, cpu => do
    let next ← cpu.step
    if cpu.returning level then some next else next.runToReturn level fuel

end Akiso.Mos6502
