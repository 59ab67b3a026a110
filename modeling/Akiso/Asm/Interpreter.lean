import Akiso.Asm.BranchRuns
import Akiso.Asm.FixRuns
import Akiso.Asm.Instructions
import Akiso.Shared.Executions
import Akiso.Shared.WideWords

set_option autoImplicit false

namespace Akiso.Sweet16

open Mos6502

namespace Fix

def sweet16 : Word := 0xA689
def sw16b : Word := 0xA692
def registerOp : Word := 0xA6AE
def rtnz : Word := 0xA6C7
def setz : Word := 0xA6CF
def set2 : Word := 0xA6E2
def sub2 : Word := 0xA794
def acc : Word := 0xC000
def xreg : Word := 0xC001
def yreg : Word := 0xC002
def statusCell : Word := 0xC003
def save : Word := 0xC004
def restore : Word := 0xC014

def restListing : Listing :=
  [(sweet16, [⟨.jsr, .absolute, save⟩, ⟨.pla, .implied, 0⟩, ⟨.sta, .zeroPage, r15l⟩,
      ⟨.pla, .implied, 0⟩, ⟨.sta, .zeroPage, r15h⟩]),
    (sw16b, [⟨.jsr, .absolute, sw16c⟩, ⟨.jmp, .absolute, sw16b⟩]),
    (registerOp, [⟨.stx, .zeroPage, r14h⟩, ⟨.lsr, .accumulator, 0⟩, ⟨.lsr, .accumulator, 0⟩,
      ⟨.lsr, .accumulator, 0⟩, ⟨.tay, .implied, 0⟩, ⟨.lda, .absoluteY, optbl - 2⟩,
      ⟨.pha, .implied, 0⟩, ⟨.rts, .implied, 0⟩]),
    (rtnz, [⟨.pla, .implied, 0⟩, ⟨.pla, .implied, 0⟩, ⟨.jsr, .absolute, restore⟩,
      ⟨.jmp, .indirect, r15l⟩]),
    (setz, [⟨.lda, .indirectY, r15l⟩, ⟨.sta, .zeroPageX, r0h⟩, ⟨.dey, .implied, 0⟩,
      ⟨.lda, .indirectY, r15l⟩, ⟨.sta, .zeroPageX, r0l⟩, ⟨.tya, .implied, 0⟩, ⟨.sec, .implied, 0⟩,
      ⟨.adc, .zeroPage, r15l⟩, ⟨.sta, .zeroPage, r15l⟩, ⟨.bcc, .relative, set2⟩,
      ⟨.inc, .zeroPage, r15h⟩]),
    (set2, [⟨.rts, .implied, 0⟩]),
    (set, [⟨.bpl, .relative, setz⟩]),
    (ld, [⟨.lda, .zeroPageX, r0l⟩, ⟨.sta, .zeroPage, r0l⟩, ⟨.lda, .zeroPageX, r0h⟩,
      ⟨.sta, .zeroPage, r0h⟩, ⟨.rts, .implied, 0⟩]),
    (st, [⟨.lda, .zeroPage, r0l⟩, ⟨.sta, .zeroPageX, r0l⟩, ⟨.lda, .zeroPage, r0h⟩,
      ⟨.sta, .zeroPageX, r0h⟩, ⟨.rts, .implied, 0⟩]),
    (lddat, [⟨.asl, .zeroPageX, r0l⟩, ⟨.rol, .zeroPageX, r0h⟩, ⟨.rts, .implied, 0⟩]),
    (stdat, [⟨.lsr, .zeroPageX, r0h⟩, ⟨.ror, .zeroPageX, r0l⟩, ⟨.rts, .implied, 0⟩]),
    (sub, [⟨.ldy, .immediate, 0⟩]),
    (cpr, [⟨.sec, .implied, 0⟩, ⟨.lda, .zeroPage, r0l⟩, ⟨.sbc, .zeroPageX, r0l⟩,
      ⟨.sta, .absoluteY, r0l⟩, ⟨.lda, .zeroPage, r0h⟩, ⟨.sbc, .zeroPageX, r0h⟩]),
    (sub2, [⟨.sta, .absoluteY, r0h⟩, ⟨.tya, .implied, 0⟩, ⟨.adc, .immediate, 0⟩,
      ⟨.sta, .zeroPage, r14h⟩, ⟨.rts, .implied, 0⟩]),
    (add, [⟨.lda, .zeroPage, r0l⟩, ⟨.adc, .zeroPageX, r0l⟩, ⟨.sta, .zeroPage, r0l⟩,
      ⟨.lda, .zeroPage, r0h⟩, ⟨.adc, .zeroPageX, r0h⟩, ⟨.ldy, .immediate, 0⟩,
      ⟨.beq, .relative, sub2⟩]),
    (rtn, [⟨.jmp, .absolute, rtnz⟩]),
    (save, [⟨.sta, .absolute, acc⟩, ⟨.stx, .absolute, xreg⟩, ⟨.sty, .absolute, yreg⟩,
      ⟨.php, .implied, 0⟩, ⟨.pla, .implied, 0⟩, ⟨.sta, .absolute, statusCell⟩,
      ⟨.cld, .implied, 0⟩, ⟨.rts, .implied, 0⟩]),
    (restore, [⟨.lda, .absolute, statusCell⟩, ⟨.pha, .implied, 0⟩, ⟨.lda, .absolute, acc⟩,
      ⟨.ldx, .absolute, xreg⟩, ⟨.ldy, .absolute, yreg⟩, ⟨.plp, .implied, 0⟩,
      ⟨.rts, .implied, 0⟩])]

def restImage : Image :=
  restListing.image

set_option maxRecDepth 2000 in
theorem rest_clear : restImage.Clear :=
  restListing.clear rfl

theorem rest_assembled :
    restListing.all (fun part => decide (restListing.image.Code part.1 part.2)) = true := by
  decide +kernel

theorem rest_code {pc : Word} {instructions : List Instruction}
    (listed : (pc, instructions) ∈ restListing) : restImage.Code pc instructions :=
  restListing.code rest_assembled listed

section Operations

variable {cpu : Cpu}

theorem rest_free : restImage r0l = none ∧ restImage r0h = none ∧ restImage r14h = none ∧
    restImage r15l = none ∧ restImage r15h = none :=
  ⟨rest_clear _ (by decide), rest_clear _ (by decide), rest_clear _ (by decide),
    rest_clear _ (by decide), rest_clear _ (by decide)⟩

theorem low_r0 : low r0 = r0l := rfl

theorem high_r0 : high r0 = r0h := rfl

theorem high_ne (n : BitVec 4) : high (index n) ≠ r0l := by
  revert n
  decide

theorem low_ne (n : BitVec 4) : low (index n) ≠ r0h := by
  revert n
  decide

variable (installed : restImage.Installed cpu.memory) {n : BitVec 4} (indexed : cpu.x = index n)
  (hidden : Word → Prop)

include installed

include indexed in
theorem ld_done (entered : cpu.pc = ld) :
    Done restImage hidden cpu (operate cpu.memory cpu.x .ld) := by
  have code : restImage.Code ld [⟨.lda, .zeroPageX, r0l⟩, ⟨.sta, .zeroPage, r0l⟩,
      ⟨.lda, .zeroPageX, r0h⟩, ⟨.sta, .zeroPage, r0h⟩, ⟨.rts, .implied, 0⟩] :=
    rest_code (by decide)
  have back : restImage.Code (ld + 8#16) [⟨.rts, .implied, 0⟩] := code.drop 4
  have moved := Leads.block cpu.s _ installed (entered ▸ code.take 4) (by decide)
    (by simp [Image.Apart, Cpu.writes, Cpu.past, rest_free])
  have apart : high cpu.x ≠ r0l := indexed ▸ high_ne n
  refine moved.done (by simp) (by simp) (by simp) ?_ ?_
  · simp [operate, register, setRegister_append, apart, low_r0, high_r0]
  · simpa [entered, BitVec.add_assoc] using back

include indexed in
theorem st_done (entered : cpu.pc = st) :
    Done restImage hidden cpu (operate cpu.memory cpu.x .st) := by
  have code : restImage.Code st [⟨.lda, .zeroPage, r0l⟩, ⟨.sta, .zeroPageX, r0l⟩,
      ⟨.lda, .zeroPage, r0h⟩, ⟨.sta, .zeroPageX, r0h⟩, ⟨.rts, .implied, 0⟩] :=
    rest_code (by decide)
  have back : restImage.Code (st + 8#16) [⟨.rts, .implied, 0⟩] := code.drop 4
  have moved := Leads.block cpu.s _ installed (entered ▸ code.take 4) (by decide)
    (by simp [Image.Apart, Cpu.writes, Cpu.past, clear_low rest_clear, clear_high rest_clear])
  have apart : r0h ≠ low cpu.x := indexed ▸ (low_ne n).symm
  refine moved.done (by simp) (by simp) (by simp) ?_ ?_
  · simp [operate, register, setRegister_append, apart, low_r0, high_r0]
  · simpa [entered, BitVec.add_assoc] using back

theorem lddat_done (entered : cpu.pc = lddat) :
    Done restImage hidden cpu (operate cpu.memory cpu.x .lddat) := by
  have code : restImage.Code lddat [⟨.asl, .zeroPageX, r0l⟩, ⟨.rol, .zeroPageX, r0h⟩,
      ⟨.rts, .implied, 0⟩] := rest_code (by decide)
  have back : restImage.Code (lddat + 4#16) [⟨.rts, .implied, 0⟩] := code.drop 2
  have moved := Leads.block cpu.s _ installed (entered ▸ code.take 2) (by decide)
    (by simp [Image.Apart, Cpu.writes, Cpu.past, clear_low rest_clear, clear_high rest_clear])
  have apart := (low_ne_high cpu.x).symm
  refine moved.done (by simp) (by simp) (by simp) ?_ ?_
  · rw [operate, register, append_shiftLeft, setRegister_append]
    simp [apart]
  · simpa [entered, BitVec.add_assoc] using back

theorem stdat_done (entered : cpu.pc = stdat) :
    Done restImage hidden cpu (operate cpu.memory cpu.x .stdat) := by
  have code : restImage.Code stdat [⟨.lsr, .zeroPageX, r0h⟩, ⟨.ror, .zeroPageX, r0l⟩,
      ⟨.rts, .implied, 0⟩] := rest_code (by decide)
  have back : restImage.Code (stdat + 4#16) [⟨.rts, .implied, 0⟩] := code.drop 2
  have moved := Leads.block cpu.s _ installed (entered ▸ code.take 2) (by decide)
    (by simp [Image.Apart, Cpu.writes, Cpu.past, clear_low rest_clear, clear_high rest_clear])
  have apart := low_ne_high cpu.x
  refine moved.done (by simp) (by simp) (by simp) ?_ ?_
  · rw [operate, register, append_shiftRight, setRegister_append, Function.update_comm apart]
    simp [apart]
  · simpa [entered, BitVec.add_assoc] using back

omit installed in
theorem address_result (d : Byte) (few : d = r0 ∨ d = r13) (operation : Operation) (cpu : Cpu)
    (result : cpu.y = d) :
    cpu.address ⟨operation, .absoluteY, r0l⟩ = low d ∧
      cpu.address ⟨operation, .absoluteY, r0h⟩ = high d := by
  rcases few with rfl | rfl <;> simp only [Cpu.address, result] <;> decide

omit installed in
theorem status_eq (d : Byte) (carry : Bool) :
    BitVec.ofNat 8 (d.toNat + carry.toNat) = status d carry := by
  cases carry <;> simp [status, BitVec.ofNat_add]

theorem sub2_done (entered : cpu.pc = sub2) (binary : cpu.p.decimal = false) (d : Byte)
    (result : cpu.y = d) (few : d = r0 ∨ d = r13) :
    Done restImage hidden cpu (Function.update (Function.update cpu.memory (high d) cpu.a) r14h
      (status d cpu.p.carry)) := by
  have code : restImage.Code sub2 [⟨.sta, .absoluteY, r0h⟩, ⟨.tya, .implied, 0⟩,
      ⟨.adc, .immediate, 0⟩, ⟨.sta, .zeroPage, r14h⟩, ⟨.rts, .implied, 0⟩] :=
    rest_code (by decide)
  have back : restImage.Code (sub2 + 8#16) [⟨.rts, .implied, 0⟩] := code.drop 4
  have place := fun other here => (address_result d few .sta other here).2
  obtain ⟨moved, decimal⟩ := Leads.binary cpu.s _ installed (entered ▸ code.take 4) (by decide)
    binary (by simp [Image.Apart, Cpu.writes, Cpu.past, rest_free, place, result, high,
      rest_clear.zeroPage])
  refine moved.done (by simp [Cpu.add]) (by simp [Cpu.add]) (decimal.trans binary.symm) ?_ ?_
  · simp [Cpu.add, place, result, ← status_eq]
  · simpa [Cpu.add, entered, BitVec.add_assoc] using back

omit installed in
theorem operate_add (memory : Memory) (x : Byte) :
    operate memory x .add =
      Function.update (Function.update (Function.update memory r0l
        (BitVec.ofNat 8 (lowSum (memory r0l) (memory (low x)) false))) r0h
        (BitVec.ofNat 8 (highSum (memory r0h) (memory r0l) (memory (high x)) (memory (low x))
          false))) r14h
        (status r0 (decide (256 ≤ highSum (memory r0h) (memory r0l) (memory (high x))
          (memory (low x)) false))) := by
  simp only [operate, register, low_r0, high_r0, ← add_carried_iff]
  rw [append_add, setRegister_append, low_r0, high_r0]

include indexed in
theorem add_done (entered : cpu.pc = add) (binary : cpu.p.decimal = false)
    (carry : cpu.p.carry = false) :
    Done restImage hidden cpu (operate cpu.memory cpu.x .add) := by
  have code : restImage.Code add [⟨.lda, .zeroPage, r0l⟩, ⟨.adc, .zeroPageX, r0l⟩,
      ⟨.sta, .zeroPage, r0l⟩, ⟨.lda, .zeroPage, r0h⟩, ⟨.adc, .zeroPageX, r0h⟩,
      ⟨.ldy, .immediate, 0⟩, ⟨.beq, .relative, sub2⟩] := rest_code (by decide)
  have branch : restImage.Code (add + 12#16) [⟨.beq, .relative, sub2⟩] := code.drop 6
  obtain ⟨summed, decimal⟩ := Leads.binary cpu.s _ installed (entered ▸ code.take 6) (by decide)
    binary (by simp [Image.Apart, Cpu.writes, Cpu.past, Cpu.add, rest_free])
  have jumped := summed.trans (.execute cpu.s _ summed.installed
    (by simpa [Cpu.add, entered, BitVec.add_assoc] using branch) (by simp) (by simp [Cpu.writes]))
  have done := sub2_done jumped.installed hidden (by simp [Cpu.add]) (by simpa using decimal) r0
    (by simp [Cpu.add]; rfl) (.inl rfl)
  refine done.after (jumped.reaches (by simp [Cpu.add]) (by simp [Cpu.add])
    (by simpa using decimal.trans binary.symm) hidden) ?_
  have apart : high cpu.x ≠ r0l := indexed ▸ high_ne n
  have halves : r0h ≠ r0l := by decide
  rw [operate_add]
  unfold highSum lowSum
  simpa [Cpu.add, carry, apart, halves, high_r0] using SameOutside.refl hidden _

omit installed in
theorem subtract_eq (memory : Memory) (d x : Byte) :
    subtract memory d x =
      Function.update (Function.update (Function.update memory (low d)
        (BitVec.ofNat 8 (lowSum (memory r0l) (~~~memory (low x)) true))) (high d)
        (BitVec.ofNat 8 (highSum (memory r0h) (memory r0l) (~~~memory (high x))
          (~~~memory (low x)) true))) r14h
        (status d (decide (256 ≤ highSum (memory r0h) (memory r0l) (~~~memory (high x))
          (~~~memory (low x)) true))) := by
  simp only [subtract, register, low_r0, high_r0, ← not_borrowed_iff]
  rw [append_sub, setRegister_append]

omit installed in
theorem low_result (d : Byte) (few : d = r0 ∨ d = r13) (n : BitVec 4) :
    high (index n) ≠ low d ∧ r0h ≠ low d := by
  revert n
  rcases few with rfl | rfl <;> decide

include indexed in
-- CPR, which SUB falls into with R0 for the result.
theorem subtract_done (entered : cpu.pc = cpr) (binary : cpu.p.decimal = false) (d : Byte)
    (result : cpu.y = d) (few : d = r0 ∨ d = r13) :
    Done restImage hidden cpu (subtract cpu.memory d cpu.x) := by
  have code : restImage.Code cpr [⟨.sec, .implied, 0⟩, ⟨.lda, .zeroPage, r0l⟩,
      ⟨.sbc, .zeroPageX, r0l⟩, ⟨.sta, .absoluteY, r0l⟩, ⟨.lda, .zeroPage, r0h⟩,
      ⟨.sbc, .zeroPageX, r0h⟩] := rest_code (by decide)
  have place := fun other here => (address_result d few .sta other here).1
  obtain ⟨apart, halves⟩ := low_result d few n
  rw [← indexed] at apart
  obtain ⟨differed, decimal⟩ := Leads.binary cpu.s _ installed (entered ▸ code) (by decide) binary
    (by simp [Image.Apart, Cpu.writes, Cpu.past, Cpu.add, place, result, clear_low rest_clear])
  have arrives : cpr + 12#16 = sub2 := by decide
  have done := sub2_done differed.installed hidden
    (by simp [Cpu.add, entered, BitVec.add_assoc, arrives]) decimal d (by simpa [Cpu.add]) few
  refine done.after (differed.reaches (by simp [Cpu.add]) (by simp [Cpu.add])
    (decimal.trans binary.symm) hidden) ?_
  rw [subtract_eq]
  unfold highSum lowSum
  simpa [Cpu.add, place, result, apart, halves] using SameOutside.refl hidden _

include indexed in
theorem sub_done (entered : cpu.pc = sub) (binary : cpu.p.decimal = false) :
    Done restImage hidden cpu (operate cpu.memory cpu.x .sub) := by
  have code : restImage.Code sub [⟨.ldy, .immediate, 0⟩] := rest_code (by decide)
  have cleared := Leads.execute cpu.s _ installed (entered ▸ code) (by simp) (by simp [Cpu.writes])
  have arrives : sub + 2#16 = cpr := by decide
  have done := subtract_done cleared.installed indexed hidden (by simp [entered, arrives]) binary
    r0 rfl (.inl rfl)
  exact done.after (cleared.reaches rfl rfl rfl hidden) (.refl _ _)

omit installed in
theorem address_program (operation : Operation) (cpu : Cpu) :
    cpu.address ⟨operation, .indirectY, r15l⟩ = register cpu.memory r15 + cpu.y.setWidth 16 :=
  rfl

omit installed in
theorem counter_apart (other : n ≠ 15#4) :
    (r15l ≠ low (index n) ∧ r15h ≠ low (index n)) ∧
      r15l ≠ high (index n) ∧ r15h ≠ high (index n) := by
  revert n
  decide

omit installed in
theorem counter_update (memory : Memory) {address : Word} (apart : r15l ≠ address ∧ r15h ≠ address)
    (byte : Byte) : register (Function.update memory address byte) r15 = register memory r15 := by
  simp [register, low_r15, high_r15, apart]

omit installed in
theorem add_two (memory : Memory) :
    setRegister memory r15 (register memory r15 + 2#16) =
      if 256 ≤ 1 + (memory r15l).toNat + 1 then
        Function.update (Function.update memory r15l
          (BitVec.ofNat 8 (1 + (memory r15l).toNat + 1))) r15h (memory r15h + 1#8)
      else Function.update memory r15l (BitVec.ofNat 8 (1 + (memory r15l).toNat + 1)) := by
  have lowByte := (memory r15l).isLt
  have highByte := (memory r15h).isLt
  have here : register memory r15 = memory r15h ++ memory r15l := rfl
  split
  next carried =>
    have up : register memory r15 + 2#16 =
        (memory r15h + 1#8) ++ BitVec.ofNat 8 (1 + (memory r15l).toNat + 1) := by
      apply BitVec.eq_of_toNat_eq
      simp only [here, toNat_append_bytes, BitVec.toNat_add, BitVec.toNat_ofNat]
      omega
    rw [up, setRegister_append, low_r15, high_r15]
  next room =>
    have up : register memory r15 + 2#16 =
        memory (high r15) ++ BitVec.ofNat 8 (1 + (memory r15l).toNat + 1) := by
      apply BitVec.eq_of_toNat_eq
      simp only [here, high_r15, toNat_append_bytes, BitVec.toNat_add, BitVec.toNat_ofNat]
      omega
    rw [up, setRegister_low, low_r15]

theorem set2_done (memory : Memory) (entered : cpu.pc = setz + 15#16)
    (written : cpu.memory = Function.update memory r15l
      (BitVec.ofNat 8 (1 + (memory r15l).toNat + 1)))
    (carry : cpu.p.carry = decide (256 ≤ 1 + (memory r15l).toNat + 1)) :
    Done restImage hidden cpu (setRegister memory r15 (register memory r15 + 2#16)) := by
  have code : restImage.Code setz [⟨.lda, .indirectY, r15l⟩, ⟨.sta, .zeroPageX, r0h⟩,
      ⟨.dey, .implied, 0⟩, ⟨.lda, .indirectY, r15l⟩, ⟨.sta, .zeroPageX, r0l⟩, ⟨.tya, .implied, 0⟩,
      ⟨.sec, .implied, 0⟩, ⟨.adc, .zeroPage, r15l⟩, ⟨.sta, .zeroPage, r15l⟩,
      ⟨.bcc, .relative, set2⟩, ⟨.inc, .zeroPage, r15h⟩] := rest_code (by decide)
  have branch : restImage.Code (setz + 15#16) [⟨.bcc, .relative, set2⟩] := (code.drop 9).take 1
  have carrying : restImage.Code (setz + 17#16) [⟨.inc, .zeroPage, r15h⟩] := code.drop 10
  have back : restImage.Code set2 [⟨.rts, .implied, 0⟩] := rest_code (by decide)
  have arrives : setz + 17#16 + 2#16 = set2 := by decide
  have apart : r15h ≠ r15l := by decide
  have test := Leads.execute cpu.s _ installed (entered ▸ branch) (by simp) (by simp [Cpu.writes])
  rw [add_two]
  by_cases carried : 256 ≤ 1 + (memory r15l).toNat + 1
  · rw [decide_eq_true carried] at carry
    have up := test.trans (.execute cpu.s ⟨.inc, .zeroPage, r15h⟩ test.installed
      (by simpa [carry, entered, BitVec.add_assoc] using carrying) (by simp)
      (by simp [Cpu.writes, Cpu.past, rest_free]))
    refine up.done (by simp) (by simp) (by simp) ?_ ?_
    · simp [written, carried, apart]
    · simpa [carry, entered, BitVec.add_assoc, arrives] using back
  · rw [decide_eq_false carried] at carry
    refine test.done (by simp) (by simp) (by simp) ?_ ?_
    · simp [written, carried]
    · simpa [carry] using back

def setzCode : List Instruction :=
  [⟨.lda, .indirectY, r15l⟩, ⟨.sta, .zeroPageX, r0h⟩, ⟨.dey, .implied, 0⟩,
    ⟨.lda, .indirectY, r15l⟩, ⟨.sta, .zeroPageX, r0l⟩, ⟨.tya, .implied, 0⟩, ⟨.sec, .implied, 0⟩,
    ⟨.adc, .zeroPage, r15l⟩, ⟨.sta, .zeroPage, r15l⟩]

include indexed in
theorem set_done (entered : cpu.pc = set) (binary : cpu.p.decimal = false)
    (plus : cpu.p.negative = false) (two : cpu.y = 2#8) (other : n ≠ 15#4)
    (constant : register cpu.memory r15 + 1#16 ≠ high cpu.x) :
    Done restImage hidden cpu (operate cpu.memory cpu.x .set) := by
  have code : restImage.Code setz (setzCode ++ [⟨.bcc, .relative, set2⟩,
      ⟨.inc, .zeroPage, r15h⟩]) := rest_code (by decide)
  have jump : restImage.Code set [⟨.bpl, .relative, setz⟩] := rest_code (by decide)
  have jumped := Leads.execute cpu.s _ installed (entered ▸ jump) (by simp) (by simp [Cpu.writes])
  rw [execute_bpl, plus, if_neg Bool.false_ne_true] at jumped
  obtain ⟨lowApart, highApart⟩ := counter_apart other
  rw [indexed] at constant
  obtain ⟨summed, decimal⟩ := Leads.binary cpu.s setzCode jumped.installed (code.take 9) (by decide)
    binary (by simp [setzCode, Image.Apart, Cpu.writes, Cpu.past, Cpu.add, rest_free,
      clear_low rest_clear, clear_high rest_clear])
  have loaded := setRegister_append cpu.memory cpu.x
    (cpu.memory (register cpu.memory r15 + 2#16)) (cpu.memory (register cpu.memory r15 + 1#16))
  rw [indexed, Function.update_comm (low_ne_high _)] at loaded
  have done := set2_done summed.installed hidden (setRegister cpu.memory cpu.x
    (cpu.memory (register cpu.memory r15 + 2#16) ++ cpu.memory (register cpu.memory r15 + 1#16)))
    (by simp [setzCode, Cpu.add, BitVec.add_assoc])
    (by simp [setzCode, Cpu.add, address_program, loaded, indexed, two, counter_update, lowApart,
      highApart, constant])
    (by simp [setzCode, Cpu.add, loaded, indexed, two, lowApart, highApart])
  have counter : register (setRegister cpu.memory cpu.x (cpu.memory (register cpu.memory r15 +
      2#16) ++ cpu.memory (register cpu.memory r15 + 1#16))) r15 = register cpu.memory r15 := by
    rw [setRegister, indexed, counter_update _ highApart, counter_update _ lowApart]
  rw [counter] at done
  exact done.after ((jumped.trans summed).reaches (by simp [setzCode, Cpu.add])
    (by simp [setzCode, Cpu.add]) (decimal.trans binary.symm) hidden) (.refl _ _)

omit installed in
theorem inr_done (installed : image.Installed cpu.memory) (entered : cpu.pc = inr) :
    Done image hidden cpu (operate cpu.memory cpu.x .inr) := by
  have code : image.Code inr [⟨.inc, .zeroPageX, r0l⟩, ⟨.bne, .relative, inr2⟩,
      ⟨.inc, .zeroPageX, r0h⟩, ⟨.rts, .implied, 0⟩] := stat3_code.drop 1
  have branch : image.Code (inr + 2#16) [⟨.bne, .relative, inr2⟩] := (code.drop 1).take 1
  have carrying : image.Code (inr + 4#16) [⟨.inc, .zeroPageX, r0h⟩] := (code.drop 2).take 1
  have back : image.Code inr2 [⟨.rts, .implied, 0⟩] := code.drop 3
  have arrives : inr + 4#16 + 2#16 = inr2 := by decide
  have apart := (low_ne_high cpu.x).symm
  have up := Leads.execute cpu.s _ installed (entered ▸ code) (by simp)
    (by simp [Cpu.writes, Cpu.past, clear_low clear])
  have test := up.trans (.execute cpu.s _ up.installed (by simpa [entered] using branch) (by simp)
    (by simp [Cpu.writes]))
  rw [operate, increment_eq]
  by_cases carry : cpu.memory (low cpu.x) + 1#8 = 0#8
  · have both := test.trans (.execute cpu.s ⟨.inc, .zeroPageX, r0h⟩ test.installed
      (by simpa [carry, entered, BitVec.add_assoc] using carrying) (by simp)
      (by simp [Cpu.writes, Cpu.past, clear_high clear]))
    refine both.done (by simp) (by simp) (by simp) (by simp [carry, apart]) ?_
    simpa [carry, entered, BitVec.add_assoc, arrives] using back
  · exact test.done (by simp) (by simp) (by simp) (by simp [carry]) (by simpa [carry] using back)

omit installed in
theorem dcr_done (installed : image.Installed cpu.memory) (entered : cpu.pc = dcr) :
    Done image hidden cpu (operate cpu.memory cpu.x .dcr) := by
  obtain ⟨last, leads, pc, s, x, -, decimal, memory⟩ :=
    dcr_body cpu.s clear installed (entered ▸ dcr_code)
  have back : image.Code (dcr + 8#16) [⟨.rts, .implied, 0⟩] := dcr_code.drop 4
  exact leads.done s x decimal memory (pc ▸ entered ▸ back)

end Operations

end Fix

end Akiso.Sweet16
