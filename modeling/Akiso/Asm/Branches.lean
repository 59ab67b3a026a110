import Akiso.Asm.Routines

set_option autoImplicit false

namespace Akiso.Sweet16

open Mos6502

def r15l : Word := 0x1E

def r15h : Word := 0x1F

def r15 : Byte := 0x1E

def cellFF : Word := 0xFF

namespace Fix

def sw16c : Word := 0xA698
def sw16d : Word := 0xA69E
def tobr : Word := 0xA6B9
def tobr2 : Word := 0xA6BF
def optbl : Word := 0xA6E3
def brtbl : Word := 0xA6E4
def set : Word := 0xA703
def ld : Word := 0xA705
def bk : Word := 0xA706
def st : Word := 0xA70E
def lddat : Word := 0xA760
def stdat : Word := 0xA765
def sub : Word := 0xA786
def cpr : Word := 0xA788
def add : Word := 0xA79D
def br : Word := 0xA7AB
def bnc : Word := 0xA7AC
def br1 : Word := 0xA7AE
def br2 : Word := 0xA7B3
def bnc2 : Word := 0xA7BC
def bnz : Word := 0xA7BD
def bm1 : Word := 0xA7C6
def bnm1 : Word := 0xA7D1
def nul : Word := 0xA7DB
def rtn : Word := 0xA7DC

-- OPTBL and BRTBL, whose bytes alternate; a zero stands for a routine that was taken out.
def tables : List (Option Word) :=
  [some set, some rtn, some ld, some br, some st, some bnc, some ldat, none, some stat, none,
    some lddat, none, some stdat, none, some pop, some bnz, some stpat, some bm1, some add,
    some bnm1, some sub, some bk, some popd, none, some cpr, none, some inr, some nul, some dcr,
    some nul, some nul, some nul]

-- RTS goes on behind the address it pulls.
def tableByte : Option Word → Byte
  | none => 0#8
  | some label => (label - 1#16).setWidth 8

def roundListing : Listing :=
  [(sw16c, [⟨.inc, .zeroPage, r15l⟩, ⟨.bne, .relative, sw16d⟩, ⟨.inc, .zeroPage, r15h⟩]),
    (sw16d, [⟨.lda, .immediate, set >>> 8⟩, ⟨.pha, .implied, 0⟩, ⟨.ldy, .immediate, 0⟩,
      ⟨.lda, .indirectY, r15l⟩, ⟨.and, .immediate, 0x0F⟩, ⟨.asl, .accumulator, 0⟩,
      ⟨.tax, .implied, 0⟩, ⟨.lsr, .accumulator, 0⟩, ⟨.eor, .indirectY, r15l⟩,
      ⟨.beq, .relative, tobr⟩]),
    (tobr, [⟨.inc, .zeroPage, r15l⟩, ⟨.bne, .relative, tobr2⟩, ⟨.inc, .zeroPage, r15h⟩]),
    (tobr2, [⟨.lda, .absoluteX, brtbl⟩, ⟨.pha, .implied, 0⟩, ⟨.lda, .zeroPage, r14h⟩,
      ⟨.lsr, .accumulator, 0⟩, ⟨.rts, .implied, 0⟩]),
    (br, [⟨.clc, .implied, 0⟩]),
    (bnc, [⟨.bcs, .relative, bnc2⟩]),
    (br1, [⟨.lda, .indirectY, r15l⟩, ⟨.bpl, .relative, br2⟩, ⟨.dey, .implied, 0⟩]),
    (br2, [⟨.adc, .zeroPage, r15l⟩, ⟨.sta, .zeroPage, r15l⟩, ⟨.tya, .implied, 0⟩,
      ⟨.adc, .zeroPage, r15h⟩, ⟨.sta, .zeroPage, r15h⟩]),
    (bnc2, [⟨.rts, .implied, 0⟩]),
    (bnz, [⟨.asl, .accumulator, 0⟩, ⟨.tax, .implied, 0⟩, ⟨.lda, .zeroPageX, r0l⟩,
      ⟨.ora, .zeroPageX, r0h⟩, ⟨.bne, .relative, br1⟩, ⟨.rts, .implied, 0⟩]),
    (bm1, [⟨.asl, .accumulator, 0⟩, ⟨.tax, .implied, 0⟩, ⟨.lda, .zeroPageX, r0l⟩,
      ⟨.and, .zeroPageX, r0h⟩, ⟨.eor, .zeroPage, cellFF⟩, ⟨.beq, .relative, br1⟩,
      ⟨.rts, .implied, 0⟩]),
    (bnm1, [⟨.asl, .accumulator, 0⟩, ⟨.tax, .implied, 0⟩, ⟨.lda, .zeroPageX, r0l⟩,
      ⟨.and, .zeroPageX, r0h⟩, ⟨.eor, .zeroPage, cellFF⟩, ⟨.bne, .relative, br1⟩]),
    (nul, [⟨.rts, .implied, 0⟩])]

def roundImage : Image := fun address =>
  (roundListing.image address).or ((tables[(address - optbl).toNat]?).map tableByte)

end Fix

inductive Branch where
  | br
  | bnc
  | bnz
  | bm1
  | bnm1
  deriving DecidableEq, Repr

namespace Branch

def opcode : Branch → Byte
  | br => 0x01
  | bnc => 0x02
  | bnz => 0x07
  | bm1 => 0x08
  | bnm1 => 0x09

def entry : Branch → Word
  | br => Fix.br
  | bnc => Fix.bnc
  | bnz => Fix.bnz
  | bm1 => Fix.bm1
  | bnm1 => Fix.bnm1

end Branch

-- Twice the number of the prior result register, whose carry is in bit 0 of R14H.
def resultIndex (memory : Memory) : Byte :=
  memory r14h >>> 1 <<< 1

def resultCarry (memory : Memory) : Bool :=
  (memory r14h).getLsbD 0

def commonBits (memory : Memory) : Byte :=
  memory (low (resultIndex memory)) &&& memory (high (resultIndex memory))

def Branch.condition (memory : Memory) : Branch → Prop
  | br => True
  | bnc => resultCarry memory = false
  | bnz => register memory (resultIndex memory) ≠ 0x0000#16
  | bm1 => register memory (resultIndex memory) = 0xFFFF#16
  | bnm1 => register memory (resultIndex memory) ≠ 0xFFFF#16

-- What the interpreter tests: EOR $FF is with a cell of page zero.
def Branch.tested (memory : Memory) : Branch → Prop
  | br => True
  | bnc => resultCarry memory = false
  | bnz => register memory (resultIndex memory) ≠ 0x0000#16
  | bm1 => commonBits memory = memory cellFF
  | bnm1 => commonBits memory ≠ memory cellFF

instance (memory : Memory) : (branch : Branch) → Decidable (branch.condition memory)
  | .br => inferInstanceAs (Decidable True)
  | .bnc => inferInstanceAs (Decidable (resultCarry memory = false))
  | .bnz => inferInstanceAs (Decidable (register memory (resultIndex memory) ≠ 0x0000#16))
  | .bm1 => inferInstanceAs (Decidable (register memory (resultIndex memory) = 0xFFFF#16))
  | .bnm1 => inferInstanceAs (Decidable (register memory (resultIndex memory) ≠ 0xFFFF#16))

instance (memory : Memory) : (branch : Branch) → Decidable (branch.tested memory)
  | .br => inferInstanceAs (Decidable True)
  | .bnc => inferInstanceAs (Decidable (resultCarry memory = false))
  | .bnz => inferInstanceAs (Decidable (register memory (resultIndex memory) ≠ 0x0000#16))
  | .bm1 => inferInstanceAs (Decidable (commonBits memory = memory cellFF))
  | .bnm1 => inferInstanceAs (Decidable (commonBits memory ≠ memory cellFF))

def displaced (counter : Word) (displacement : Byte) (taken : Bool) : Word :=
  if taken then counter + displacement.signExtend 16 else counter

def RoundCell (s : Byte) (address : Word) : Prop :=
  address = r15l ∨ address = r15h ∨ address = stackAddress s ∨ address = stackAddress (s - 1#8)

instance (s : Byte) (address : Word) : Decidable (RoundCell s address) :=
  inferInstanceAs (Decidable (_ ∨ _ ∨ _ ∨ _))

structure RoundStart (branch : Branch) (p : Word) (displacement : Byte) (cpu : Cpu) : Prop where
  installed : Fix.roundImage.Installed cpu.memory
  entered : cpu.pc = Fix.sw16c
  binary : cpu.p.decimal = false
  counter : register cpu.memory r15 + 1#16 = p
  opcode : cpu.memory p = branch.opcode
  displacement : cpu.memory (p + 1#16) = displacement
  outside : ¬ RoundCell cpu.s p ∧ ¬ RoundCell cpu.s (p + 1#16)
  result : (cpu.memory r14h >>> 1).toNat ≤ 14

structure Branched (branch : Branch) (p : Word) (displacement : Byte) (cpu final : Cpu) : Prop where
  counter : register final.memory r15 =
    displaced (p + 1#16) displacement (branch.condition cpu.memory)
  kept : ∀ address, address.toNat < 30 → final.memory address = cpu.memory address

def RoundBranches (branch : Branch) (p : Word) (displacement : Byte) (cpu : Cpu) : Prop :=
  ∃ fuel final, cpu.runToReturn cpu.s fuel = some final ∧
    Branched branch p displacement cpu final

def Branch.Sound (memory : Memory) (displacement : Byte) : Branch → Prop
  | br | bnc | bnz => True
  | bm1 | bnm1 => displacement = 0#8 ∨ memory cellFF = 0xFF#8 ∨
    (commonBits memory ≠ 0xFF#8 ∧ commonBits memory ≠ memory cellFF)

variable {memory : Memory}

theorem append_eq_iff (highByte lowByte : Byte) (word : Word) :
    highByte ++ lowByte = word ↔
      highByte = (word >>> 8).setWidth 8 ∧ lowByte = word.setWidth 8 := by
  constructor
  · rintro rfl
    exact ⟨(high_of_append _ _).symm, (low_of_append _ _).symm⟩
  · rintro ⟨rfl, rfl⟩
    exact append_halves word

theorem register_minus_one (memory : Memory) (x : Byte) :
    register memory x = 0xFFFF#16 ↔ memory (low x) &&& memory (high x) = 0xFF#8 := by
  have full : memory (low x) &&& memory (high x) = 0xFF#8 ↔
      memory (low x) = 0xFF#8 ∧ memory (high x) = 0xFF#8 := BitVec.and_eq_allOnes_iff
  rw [register, append_eq_iff, full, and_comm]
  rfl

theorem register_zero (memory : Memory) (x : Byte) :
    register memory x = 0x0000#16 ↔ memory (low x) ||| memory (high x) = 0#8 := by
  rw [register, append_eq_iff, BitVec.or_eq_zero_iff, and_comm]
  rfl

theorem toNat_displacement (displacement : Byte) :
    (displacement.signExtend 16).toNat =
      displacement.toNat + if displacement.msb then 65280 else 0 := by
  have small := displacement.isLt
  rw [BitVec.toNat_signExtend, BitVec.toNat_setWidth, Nat.mod_eq_of_lt (by omega)]

theorem signExtend_eq_zero (displacement : Byte) :
    displacement.signExtend 16 = 0#16 ↔ displacement = 0#8 := by
  constructor
  · intro none
    have value := toNat_displacement displacement
    rw [none] at value
    apply BitVec.eq_of_toNat_eq
    simp only [BitVec.toNat_ofNat] at value ⊢
    omega
  · rintro rfl
    rfl

theorem displaced_eq_iff (counter : Word) (displacement : Byte) (first second : Prop)
    [Decidable first] [Decidable second] :
    displaced counter displacement first = displaced counter displacement second ↔
      displacement = 0#8 ∨ (first ↔ second) := by
  have moves : counter + displacement.signExtend 16 = counter ↔ displacement = 0#8 := by
    rw [BitVec.add_right_eq_self, signExtend_eq_zero]
  by_cases one : first <;> by_cases other : second <;>
    simp only [displaced, one, other, decide_true, decide_false, if_true, if_false, iff_true,
      iff_false, or_true, moves, not_true, or_false, Bool.false_eq_true, iff_self]
  rw [eq_comm, moves]

theorem same_as_full_iff (both cell : Byte) :
    (both = cell ↔ both = 0xFF#8) ↔ cell = 0xFF#8 ∨ (both ≠ 0xFF#8 ∧ both ≠ cell) := by
  by_cases full : both = 0xFF#8
  · subst full
    simp [eq_comm]
  · by_cases same : both = cell
    · subst same
      simp [full]
    · simp [full, same]

theorem sound_iff (branch : Branch) (memory : Memory) (counter : Word) (displacement : Byte) :
    displaced counter displacement (branch.tested memory) =
        displaced counter displacement (branch.condition memory) ↔
      branch.Sound memory displacement := by
  rw [displaced_eq_iff]
  cases branch with
  | br | bnc | bnz => simp [Branch.tested, Branch.condition, Branch.Sound]
  | bm1 | bnm1 =>
    simp only [Branch.tested, Branch.condition, Branch.Sound, register_minus_one, ne_eq,
      not_iff_not]
    rw [← commonBits, same_as_full_iff]

end Akiso.Sweet16
