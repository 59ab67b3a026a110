import Akiso.Asm.Branches

set_option autoImplicit false

namespace Akiso.Sweet16

open Mos6502

namespace Fix

theorem round_clear : roundImage.Clear := by
  intro address below
  have outside : tables[(address - optbl).toNat]? = none := by
    apply List.getElem?_eq_none
    have length : tables.length = 32 := by decide
    have far : 32 ≤ (address - optbl).toNat := by
      rw [optbl]
      bv_omega
    omega
  rw [roundImage, roundListing.clear rfl address below, outside]
  rfl

theorem round_assembled :
    roundListing.all (fun part => decide (roundListing.image.Code part.1 part.2)) = true := by
  decide +kernel

theorem round_code {pc : Word} {instructions : List Instruction}
    (listed : (pc, instructions) ∈ roundListing) : roundImage.Code pc instructions :=
  (roundListing.code round_assembled listed).mono fun _ _ here => by simp [roundImage, here]

theorem sw16c_code : roundImage.Code sw16c [⟨.inc, .zeroPage, r15l⟩, ⟨.bne, .relative, sw16d⟩,
    ⟨.inc, .zeroPage, r15h⟩] :=
  round_code (by decide)

theorem tobr_code : roundImage.Code tobr [⟨.inc, .zeroPage, r15l⟩, ⟨.bne, .relative, tobr2⟩,
    ⟨.inc, .zeroPage, r15h⟩] :=
  round_code (by decide)

variable {cpu : Cpu}

theorem low_r15 : low r15 = r15l := by decide

theorem high_r15 : high r15 = r15h := by decide

theorem advance_leads {next : Word} (level : Byte) (installed : roundImage.Installed cpu.memory)
    (code : roundImage.Code cpu.pc [⟨.inc, .zeroPage, r15l⟩, ⟨.bne, .relative, next⟩,
      ⟨.inc, .zeroPage, r15h⟩]) (arrives : cpu.pc + 6#16 = next) :
    ∃ p : Flags, p.decimal = cpu.p.decimal ∧ Leads roundImage level cpu
      { cpu with p, pc := next, memory := increment cpu.memory r15 } := by
  have free : roundImage r15l = none ∧ roundImage r15h = none :=
    ⟨round_clear _ (by decide), round_clear _ (by decide)⟩
  obtain ⟨-, -, branch⟩ := id code
  obtain ⟨-, -, carrying⟩ := id branch
  have up := Leads.execute level _ installed code (by simp) (by simp [Cpu.writes, Cpu.past, free])
  have test := up.trans (.execute level _ up.installed branch (by simp) (by simp [Cpu.writes]))
  rw [increment_eq, low_r15, high_r15]
  by_cases carry : cpu.memory r15l + 1#8 = 0#8
  · have both := test.trans (.execute level ⟨.inc, .zeroPage, r15h⟩ test.installed
      (by simpa [carry] using carrying) (by simp) (by simp [Cpu.writes, Cpu.past, free]))
    have apart : r15h ≠ r15l := by decide
    refine ⟨(cpu.p.result 0#8).result (cpu.memory r15h + 1#8), rfl, ?_⟩
    simpa [carry, apart, ← arrives, BitVec.add_assoc] using both
  · refine ⟨cpu.p.result (cpu.memory r15l + 1#8), rfl, ?_⟩
    simpa [carry] using test

theorem address_counter (cpu : Cpu) (operation : Operation) (zero : cpu.y = 0#8) :
    cpu.address ⟨operation, .indirectY, r15l⟩ = register cpu.memory r15 := by
  simp [Cpu.address, zero, pointerAt, register, high, low, r15l, r15]

theorem register_push (memory : Memory) (s byte x : Byte) :
    register (Function.update memory (stackAddress s) byte) x = register memory x := by
  obtain ⟨notLow, notHigh⟩ := stack_ne_register s x
  rw [register, register, Function.update_of_ne notLow.symm, Function.update_of_ne notHigh.symm]

def page : Byte :=
  (set >>> 8).setWidth 8

def fetchCode : List Instruction :=
  [⟨.lda, .immediate, set >>> 8⟩, ⟨.pha, .implied, 0⟩, ⟨.ldy, .immediate, 0⟩,
    ⟨.lda, .indirectY, r15l⟩, ⟨.and, .immediate, 0x0F⟩, ⟨.asl, .accumulator, 0⟩,
    ⟨.tax, .implied, 0⟩, ⟨.lsr, .accumulator, 0⟩, ⟨.eor, .indirectY, r15l⟩]

theorem masked_opcode (byte : Byte) : ((byte &&& 15#8) <<< 1 >>> 1) ^^^ byte = byte &&& 0xF0#8 := by
  revert byte
  decide

-- The opcode is in A, and the register in X; BEQ TOBR tells whether there is one.
theorem fetch_leads {p : Word} (byte : Byte) (level : Byte)
    (installed : roundImage.Installed cpu.memory) (entered : cpu.pc = sw16d)
    (counter : register cpu.memory r15 = p) (opcode : cpu.memory p = byte)
    (apart : p ≠ stackAddress cpu.s) :
    ∃ flags : Flags, flags.decimal = cpu.p.decimal ∧ Leads roundImage level cpu
      { a := byte &&& 0xF0#8
        x := (byte &&& 15#8) <<< 1
        y := 0#8
        s := cpu.s - 1#8
        p := flags
        pc := if byte &&& 0xF0#8 = 0#8 then tobr else sw16d + 16#16
        memory := Function.update cpu.memory (stackAddress cpu.s) page } := by
  have code : roundImage.Code sw16d (fetchCode ++ [⟨.beq, .relative, tobr⟩]) :=
    round_code (by decide)
  have run := Leads.block level fetchCode installed (entered ▸ code.take 9) (by decide)
    (by simp [fetchCode, Image.Apart, Cpu.writes, Cpu.past, round_clear.stack])
  have fetched : cpu.block fetchCode =
      { cpu with
        a := byte &&& 0xF0#8
        x := (byte &&& 15#8) <<< 1
        y := 0#8
        s := cpu.s - 1#8
        p := (cpu.block fetchCode).p
        pc := sw16d + 14#16
        memory := Function.update cpu.memory (stackAddress cpu.s) page } := by
    simp [fetchCode, address_counter, register_push, counter, opcode, apart, masked_opcode, page,
      entered, BitVec.add_assoc]
  have zero : (cpu.block fetchCode).p.zero = (byte &&& 0xF0#8 == 0#8) := by
    simp [fetchCode, address_counter, register_push, counter, opcode, apart, masked_opcode]
  have jumped := run.trans (.execute level ⟨.beq, .relative, tobr⟩ run.installed
    (by rw [fetched]; exact code.drop 9) (by simp) (by simp [Cpu.writes]))
  rw [execute_beq, zero, fetched] at jumped
  exact ⟨(cpu.block fetchCode).p, rfl, by simpa [BitVec.add_assoc] using jumped⟩

def dispatchCode : List Instruction :=
  [⟨.lda, .absoluteX, brtbl⟩, ⟨.pha, .implied, 0⟩, ⟨.lda, .zeroPage, r14h⟩,
    ⟨.lsr, .accumulator, 0⟩]

theorem table_entry {memory : Memory} (branch : Branch) (installed : roundImage.Installed memory) :
    memory (brtbl + (branch.opcode <<< 1).setWidth 16) = (branch.entry - 1#16).setWidth 8 := by
  refine installed _ _ ?_
  cases branch <;> rfl

-- TOBR2: the routine that the table lists is entered through RTS.
theorem dispatch_leads {level : Byte} (entry : Word)
    (installed : roundImage.Installed cpu.memory) (entered : cpu.pc = tobr2)
    (listed : cpu.memory (brtbl + cpu.x.setWidth 16) = (entry - 1#16).setWidth 8)
    (behind : (page ++ (entry - 1#16).setWidth 8) + 1#16 = entry) (pushed : cpu.s = level - 1#8)
    (high : cpu.memory (stackAddress level) = page) :
    ∃ flags : Flags, flags.decimal = cpu.p.decimal ∧ flags.carry = resultCarry cpu.memory ∧
      Leads roundImage level cpu
        { cpu with
          a := cpu.memory r14h >>> 1
          s := level
          p := flags
          pc := entry
          memory := Function.update cpu.memory (stackAddress (level - 1#8))
            ((entry - 1#16).setWidth 8) } := by
  have code : roundImage.Code tobr2 (dispatchCode ++ [⟨.rts, .implied, 0⟩]) :=
    round_code (by decide)
  have run := Leads.block level dispatchCode installed (entered ▸ code.take 4) (by decide)
    (by simp [dispatchCode, Image.Apart, Cpu.writes, Cpu.past, round_clear.stack])
  have free : r14h ≠ stackAddress (level - 1#8) := (stack_ne_register _ 0x1D#8).1.symm
  have loaded : cpu.block dispatchCode =
      { cpu with
        a := cpu.memory r14h >>> 1
        s := level - 2#8
        p := (cpu.block dispatchCode).p
        pc := tobr2 + 7#16
        memory := Function.update cpu.memory (stackAddress (level - 1#8))
          ((entry - 1#16).setWidth 8) } := by
    have down : level - 1#8 - 1#8 = level - 2#8 := by bv_omega
    simp [dispatchCode, Cpu.value, Cpu.address, listed, pushed, free, down, entered,
      BitVec.add_assoc]
  have carry : (cpu.block dispatchCode).p.carry = resultCarry cpu.memory := by
    simp [dispatchCode, pushed, free, resultCarry]
  have inside : (cpu.block dispatchCode).s ≠ level := by
    rw [loaded]
    bv_omega
  have returned := run.trans (.step level ⟨.rts, .implied, 0⟩ run.installed
    (by rw [loaded]; exact code.drop 4) (by simp) (fun _ => inside) (by simp [Cpu.writes]))
  have apart : stackAddress level ≠ stackAddress (level - 1#8) := fun same => by
    have := stackAddress_inj same
    bv_omega
  have up : level - 2#8 + 2#8 = level ∧ level - 2#8 + 1#8 = level - 1#8 := by
    constructor <;> bv_omega
  rw [execute_rts, loaded] at returned
  simp only [up, Function.update_self, Function.update_of_ne apart, high, behind] at returned
  exact ⟨(cpu.block dispatchCode).p, rfl, carry, returned⟩

def extension (displacement : Byte) : Byte :=
  if displacement.msb then 0xFF#8 else 0#8

theorem displaced_bytes (highByte lowByte displacement : Byte) :
    BitVec.ofNat 8 ((extension displacement).toNat + highByte.toNat +
        (decide (256 ≤ displacement.toNat + lowByte.toNat)).toNat) ++
      BitVec.ofNat 8 (displacement.toNat + lowByte.toNat) =
      (highByte ++ lowByte) + displacement.signExtend 16 := by
  apply BitVec.eq_of_toNat_eq
  have := highByte.isLt
  have := lowByte.isLt
  have := displacement.isLt
  simp only [toNat_append_bytes, BitVec.toNat_add, BitVec.toNat_ofNat, toNat_displacement,
    extension]
  cases displacement.msb <;> by_cases carried : 256 ≤ displacement.toNat + lowByte.toNat <;>
    simp only [carried, decide_true, decide_false, Bool.toNat_true, Bool.toNat_false, if_true,
      Bool.false_eq_true, if_false, BitVec.toNat_ofNat] <;> omega

theorem br1_leads {displacement : Byte} (level : Byte) (installed : roundImage.Installed cpu.memory)
    (entered : cpu.pc = br1) (zero : cpu.y = 0#8)
    (here : cpu.memory (register cpu.memory r15) = displacement) :
    ∃ flags : Flags, flags.decimal = cpu.p.decimal ∧ flags.carry = cpu.p.carry ∧
      Leads roundImage level cpu
        { cpu with a := displacement, y := extension displacement, p := flags, pc := br2 } := by
  have code : roundImage.Code br1 [⟨.lda, .indirectY, r15l⟩, ⟨.bpl, .relative, br2⟩,
      ⟨.dey, .implied, 0⟩] := round_code (by decide)
  have branch : roundImage.Code (br1 + 2#16) [⟨.bpl, .relative, br2⟩] := (code.drop 1).take 1
  have down : roundImage.Code (br1 + 4#16) [⟨.dey, .implied, 0⟩] := code.drop 2
  have load := Leads.execute level _ installed (entered ▸ code) (by simp) (by simp [Cpu.writes])
  have test := load.trans (.execute level ⟨.bpl, .relative, br2⟩ load.installed
    (by simpa [entered] using branch) (by simp) (by simp [Cpu.writes]))
  cases sign : displacement.msb with
  | false =>
    refine ⟨cpu.p.result displacement, rfl, rfl, ?_⟩
    simpa [address_counter, zero, here, sign, extension] using test
  | true =>
    have lowered := test.trans (.execute level ⟨.dey, .implied, 0⟩ test.installed
      (by simpa [address_counter, zero, here, sign, entered, BitVec.add_assoc]
        using down) (by simp) (by simp [Cpu.writes]))
    refine ⟨(cpu.p.result displacement).result 0xFF#8, rfl, rfl, ?_⟩
    have arrives : br1 + 5#16 = br2 := by decide
    simpa [address_counter, zero, here, sign, extension, entered, BitVec.add_assoc,
      arrives] using lowered

theorem br2_leads {displacement : Byte} (level : Byte) (installed : roundImage.Installed cpu.memory)
    (entered : cpu.pc = br2) (binary : cpu.p.decimal = false) (carry : cpu.p.carry = false)
    (first : cpu.a = displacement) (second : cpu.y = extension displacement) :
    ∃ last, Leads roundImage level cpu last ∧ last.pc = bnc2 ∧ last.s = cpu.s ∧
      last.p.decimal = false ∧ last.memory = setRegister cpu.memory r15
        (register cpu.memory r15 + displacement.signExtend 16) := by
  have code : roundImage.Code br2 [⟨.adc, .zeroPage, r15l⟩, ⟨.sta, .zeroPage, r15l⟩,
      ⟨.tya, .implied, 0⟩, ⟨.adc, .zeroPage, r15h⟩, ⟨.sta, .zeroPage, r15h⟩] :=
    round_code (by decide)
  have storing : roundImage.Code (br2 + 2#16) [⟨.sta, .zeroPage, r15l⟩, ⟨.tya, .implied, 0⟩] :=
    (code.drop 1).take 2
  have carrying : roundImage.Code (br2 + 5#16) [⟨.adc, .zeroPage, r15h⟩] := (code.drop 3).take 1
  have ending : roundImage.Code (br2 + 7#16) [⟨.sta, .zeroPage, r15h⟩] := code.drop 4
  have free : roundImage r15l = none ∧ roundImage r15h = none :=
    ⟨round_clear _ (by decide), round_clear _ (by decide)⟩
  have low := Leads.step level ⟨.adc, .zeroPage, r15l⟩ installed (entered ▸ code)
    (fun _ => binary) (by simp) (by simp [Cpu.writes])
  have middle := low.trans (.block level [⟨.sta, .zeroPage, r15l⟩, ⟨.tya, .implied, 0⟩]
    low.installed (by simpa [entered, Cpu.add] using storing) (by decide)
    (by simp [Image.Apart, Cpu.writes, Cpu.past, free]))
  have high := middle.trans (.step level ⟨.adc, .zeroPage, r15h⟩ middle.installed
    (by simpa [entered, Cpu.add, BitVec.add_assoc] using carrying)
    (fun _ => by simpa [Cpu.add] using binary) (by simp) (by simp [Cpu.writes]))
  have done := high.trans (.execute level ⟨.sta, .zeroPage, r15h⟩ high.installed
    (by simpa [entered, Cpu.add, BitVec.add_assoc] using ending) (by simp)
    (by simp [Cpu.writes, Cpu.past, free]))
  refine ⟨_, done, ?_, ?_, ?_, ?_⟩
  · have arrives : br2 + 9#16 = bnc2 := by decide
    simp [Cpu.add, entered, BitVec.add_assoc, arrives]
  · simp [Cpu.add]
  · simpa [Cpu.add] using binary
  · rw [register, ← displaced_bytes, setRegister_append, low_r15, high_r15]
    have apart : r15h ≠ r15l := by decide
    simp [Cpu.add, carry, first, second, apart]

theorem setRegister_self (memory : Memory) (x : Byte) :
    setRegister memory x (register memory x) = memory := by
  rw [register, setRegister_low, Function.update_eq_self]

def RoutineDone (cpu : Cpu) (displacement : Byte) (taken : Prop) [Decidable taken] : Prop :=
  ∃ last, Leads roundImage cpu.s cpu last ∧ roundImage.Code last.pc [⟨.rts, .implied, 0⟩] ∧
    last.s = cpu.s ∧ last.p.decimal = false ∧ last.memory = setRegister cpu.memory r15
      (displaced (register cpu.memory r15) displacement taken)

section Routines

variable {displacement : Byte} {taken : Prop} [Decidable taken] {middle : Cpu} {back : Word}

theorem test_done (leads : Leads roundImage cpu.s cpu middle)
    (pc : middle.pc = if taken then br1 else back)
    (code : roundImage.Code back [⟨.rts, .implied, 0⟩]) (s : middle.s = cpu.s)
    (memory : middle.memory = cpu.memory) (zero : middle.y = 0#8)
    (carry : taken → middle.p.carry = false) (binary : middle.p.decimal = false)
    (here : cpu.memory (register cpu.memory r15) = displacement) :
    RoutineDone cpu displacement taken := by
  by_cases jumps : taken
  · rw [if_pos jumps] at pc
    rw [← memory] at here
    obtain ⟨flags, decimal, kept, first⟩ :=
      br1_leads cpu.s leads.installed pc zero here
    obtain ⟨last, second, arrived, level, plain, written⟩ := br2_leads cpu.s first.installed rfl
      (decimal.trans binary) (kept.trans (carry jumps)) rfl rfl
    refine ⟨last, (leads.trans first).trans second, ?_, level.trans s, plain, ?_⟩
    · rw [arrived]
      exact round_code (by decide)
    · rw [written, memory, displaced, decide_eq_true jumps, if_pos rfl]
  · rw [if_neg jumps] at pc
    refine ⟨middle, leads, pc ▸ code, s, binary, ?_⟩
    rw [displaced, decide_eq_false jumps, if_neg Bool.false_ne_true, setRegister_self, memory]

theorem bnc2_code : roundImage.Code bnc2 [⟨.rts, .implied, 0⟩] :=
  round_code (by decide)

theorem bnc_done (installed : roundImage.Installed cpu.memory) (entered : cpu.pc = bnc)
    (zero : cpu.y = 0#8) (binary : cpu.p.decimal = false)
    (here : cpu.memory (register cpu.memory r15) = displacement) :
    RoutineDone cpu displacement (cpu.p.carry = false) := by
  have code : roundImage.Code bnc [⟨.bcs, .relative, bnc2⟩] := round_code (by decide)
  have test := Leads.execute cpu.s _ installed (entered ▸ code) (by simp) (by simp [Cpu.writes])
  have next : bnc + 2#16 = br1 := by decide
  refine test_done test ?_ bnc2_code (by simp) (by simp) (by simpa using zero)
    (fun clear => by simpa using clear) (by simpa using binary) here
  cases carry : cpu.p.carry <;> simp [carry, entered, next]

theorem br_done (installed : roundImage.Installed cpu.memory) (entered : cpu.pc = br)
    (zero : cpu.y = 0#8) (binary : cpu.p.decimal = false)
    (here : cpu.memory (register cpu.memory r15) = displacement) :
    RoutineDone cpu displacement True := by
  have code : roundImage.Code br [⟨.clc, .implied, 0⟩] := round_code (by decide)
  have clear := Leads.execute cpu.s _ installed (entered ▸ code) (by simp) (by simp [Cpu.writes])
  have next : br + 1#16 = bnc := by decide
  obtain ⟨last, leads, back, s, decimal, memory⟩ := bnc_done clear.installed
    (by simpa [entered] using next) zero binary here
  refine ⟨last, clear.trans leads, back, s, decimal, ?_⟩
  simpa [displaced] using memory

theorem msb_result (result : cpu.a = cpu.memory r14h >>> 1) : cpu.a.msb = false := by
  have := (cpu.memory r14h).isLt
  rw [result, BitVec.msb_eq_decide, decide_eq_false_iff_not, BitVec.toNat_ushiftRight,
    Nat.shiftRight_eq_div_pow]
  omega

def compareCode : List Instruction :=
  [⟨.asl, .accumulator, 0⟩, ⟨.tax, .implied, 0⟩, ⟨.lda, .zeroPageX, r0l⟩,
    ⟨.and, .zeroPageX, r0h⟩, ⟨.eor, .zeroPage, cellFF⟩]

/-- The bits common to the prior result's bytes have been compared with the cell $FF. -/
structure Compared (entry : Word) (cpu middle : Cpu) : Prop where
  leads : Leads roundImage cpu.s cpu middle
  pc : middle.pc = entry + 8#16
  s : middle.s = cpu.s
  memory : middle.memory = cpu.memory
  y : middle.y = cpu.y
  carry : middle.p.carry = false
  decimal : middle.p.decimal = cpu.p.decimal
  zero : middle.p.zero = true ↔ commonBits cpu.memory = cpu.memory cellFF

theorem compare_leads {entry : Word} (installed : roundImage.Installed cpu.memory)
    (result : cpu.a = cpu.memory r14h >>> 1) (entered : cpu.pc = entry)
    (code : roundImage.Code entry compareCode) : ∃ middle, Compared entry cpu middle := by
  have run := Leads.block cpu.s _ installed (entered ▸ code) (by decide)
    (by simp [compareCode, Image.Apart, Cpu.writes])
  have bits : commonBits cpu.memory =
      cpu.memory (low (cpu.a <<< 1)) &&& cpu.memory (high (cpu.a <<< 1)) := by
    rw [commonBits, resultIndex, result]
  refine ⟨_, run, ?_, ?_, ?_, ?_, ?_, ?_, ?_⟩ <;> simp only [compareCode]
  · simp [entered, BitVec.add_assoc]
  · simp
  · simp
  · simp
  · simpa using msb_result result
  · simp
  · simp [bits]

section Result

variable (installed : roundImage.Installed cpu.memory)
  (result : cpu.a = cpu.memory r14h >>> 1) (zero : cpu.y = 0#8) (binary : cpu.p.decimal = false)
  (here : cpu.memory (register cpu.memory r15) = displacement)

include installed result zero binary here

theorem bnz_done (entered : cpu.pc = bnz) :
    RoutineDone cpu displacement (Branch.tested cpu.memory .bnz) := by
  have code : roundImage.Code bnz [⟨.asl, .accumulator, 0⟩, ⟨.tax, .implied, 0⟩,
      ⟨.lda, .zeroPageX, r0l⟩, ⟨.ora, .zeroPageX, r0h⟩, ⟨.bne, .relative, br1⟩,
      ⟨.rts, .implied, 0⟩] := round_code (by decide)
  have branch : roundImage.Code (bnz + 6#16) [⟨.bne, .relative, br1⟩] := (code.drop 4).take 1
  have back : roundImage.Code (bnz + 8#16) [⟨.rts, .implied, 0⟩] := code.drop 5
  have load := Leads.block cpu.s _ installed (entered ▸ code.take 4) (by decide)
    (by simp [Image.Apart, Cpu.writes])
  have test := load.trans (.execute cpu.s _ load.installed
    (by simpa [entered, BitVec.add_assoc] using branch) (by simp) (by simp [Cpu.writes]))
  refine test_done test ?_ back (by simp) (by simp) (by simpa using zero)
    (fun _ => by simpa using msb_result result) (by simpa using binary) here
  have value : Branch.tested cpu.memory .bnz ↔
      ¬ cpu.memory (low (cpu.a <<< 1)) ||| cpu.memory (high (cpu.a <<< 1)) = 0#8 := by
    rw [Branch.tested, ne_eq, register_zero, resultIndex, result]
  rw [if_congr value rfl rfl, ite_not]
  simp [entered, BitVec.add_assoc]

theorem bm1_done (entered : cpu.pc = bm1) :
    RoutineDone cpu displacement (Branch.tested cpu.memory .bm1) := by
  have code : roundImage.Code bm1 (compareCode ++
      [⟨.beq, .relative, br1⟩, ⟨.rts, .implied, 0⟩]) := round_code (by decide)
  have branch : roundImage.Code (bm1 + 8#16) [⟨.beq, .relative, br1⟩] := (code.drop 5).take 1
  have back : roundImage.Code (bm1 + 10#16) [⟨.rts, .implied, 0⟩] := code.drop 6
  obtain ⟨middle, compared⟩ := compare_leads installed result entered (code.take 5)
  have test := compared.leads.trans (.execute cpu.s _ compared.leads.installed
    (by rw [compared.pc]; exact branch) (by simp) (by simp [Cpu.writes]))
  refine test_done test ?_ back (by simp [compared.s]) (by simp [compared.memory])
    (by simp [compared.y, zero]) (fun _ => by simp [compared.carry])
    (by simp [compared.decimal, binary]) here
  have value : Branch.tested cpu.memory .bm1 ↔ middle.p.zero = true := compared.zero.symm
  rw [if_congr value rfl rfl]
  simp [compared.pc, BitVec.add_assoc]

theorem bnm1_done (entered : cpu.pc = bnm1) :
    RoutineDone cpu displacement (Branch.tested cpu.memory .bnm1) := by
  have code : roundImage.Code bnm1 (compareCode ++ [⟨.bne, .relative, br1⟩]) :=
    round_code (by decide)
  have branch : roundImage.Code (bnm1 + 8#16) [⟨.bne, .relative, br1⟩] := code.drop 5
  have back : roundImage.Code nul [⟨.rts, .implied, 0⟩] := round_code (by decide)
  have behind : bnm1 + 10#16 = nul := by decide
  obtain ⟨middle, compared⟩ := compare_leads installed result entered (code.take 5)
  have test := compared.leads.trans (.execute cpu.s _ compared.leads.installed
    (by rw [compared.pc]; exact branch) (by simp) (by simp [Cpu.writes]))
  refine test_done test ?_ back (by simp [compared.s]) (by simp [compared.memory])
    (by simp [compared.y, zero]) (fun _ => by simp [compared.carry])
    (by simp [compared.decimal, binary]) here
  have value : Branch.tested cpu.memory .bnm1 ↔ ¬ middle.p.zero = true :=
    (not_congr compared.zero).symm
  rw [if_congr value rfl rfl, ite_not]
  simp [compared.pc, BitVec.add_assoc, behind]

end Result

end Routines

end Fix

section Round

variable {memory other : Memory} {cpu : Cpu} {branch : Branch} {p : Word} {displacement s : Byte}

theorem not_roundCell_register {address : Word} (below : address.toNat < 30) :
    ¬ RoundCell s address := by
  rintro (rfl | rfl | rfl | rfl)
  · exact absurd below (by decide)
  · exact absurd below (by decide)
  · rw [toNat_stackAddress] at below
    omega
  · rw [toNat_stackAddress] at below
    omega

theorem not_roundCell_cellFF : ¬ RoundCell s cellFF := by
  rintro (same | same | same | same)
  · exact absurd same (by decide)
  · exact absurd same (by decide)
  · have := (stack_ne_register s 0xFF#8).1
    exact this same.symm
  · have := (stack_ne_register (s - 1#8) 0xFF#8).1
    exact this same.symm

theorem setRegister_same (s : Byte) (memory : Memory) (value : Word) :
    SameOutside (RoundCell s) memory (setRegister memory r15 value) := by
  intro address shown
  refine setRegister_of_ne _ _ ?_ ?_
  · rintro rfl
    exact shown (.inl rfl)
  · rintro rfl
    exact shown (.inr (.inl rfl))

theorem increment_same (s : Byte) (memory : Memory) :
    SameOutside (RoundCell s) memory (increment memory r15) :=
  setRegister_same s memory _

theorem tested_congr (same : SameOutside (RoundCell s) memory other)
    (few : (memory r14h >>> 1).toNat ≤ 14) (branch : Branch) :
    branch.tested other ↔ branch.tested memory := by
  have status : other r14h = memory r14h := same _ (not_roundCell_register (by decide))
  have index : resultIndex other = resultIndex memory := by rw [resultIndex, resultIndex, status]
  have small : (resultIndex memory).toNat ≤ 28 := by
    rw [resultIndex, BitVec.toNat_shiftLeft, Nat.shiftLeft_eq]
    omega
  have first : other (low (resultIndex memory)) = memory (low (resultIndex memory)) :=
    same _ (not_roundCell_register (by rw [toNat_low]; omega))
  have second : other (high (resultIndex memory)) = memory (high (resultIndex memory)) :=
    same _ (not_roundCell_register (by rw [toNat_high (by omega)]; omega))
  have cell : other cellFF = memory cellFF := same _ not_roundCell_cellFF
  cases branch <;>
    simp only [Branch.tested, resultCarry, commonBits, register, status, index, first, second, cell]

theorem Fix.routine_done (cpu : Cpu) {displacement : Byte} (branch : Branch)
    (installed : roundImage.Installed cpu.memory) (entered : cpu.pc = branch.entry)
    (result : cpu.a = cpu.memory r14h >>> 1)
    (carry : cpu.p.carry = resultCarry cpu.memory) (zero : cpu.y = 0#8)
    (binary : cpu.p.decimal = false)
    (here : cpu.memory (register cpu.memory r15) = displacement) :
    RoutineDone cpu displacement (branch.tested cpu.memory) := by
  cases branch with
  | br => exact br_done installed entered zero binary here
  | bnc =>
    have done := bnc_done installed entered zero binary here
    simpa only [Branch.tested, ← carry] using done
  | bnz => exact bnz_done installed result zero binary here entered
  | bm1 => exact bm1_done installed result zero binary here entered
  | bnm1 => exact bnm1_done installed result zero binary here entered

def fetched (s : Byte) (memory : Memory) : Memory :=
  Function.update (increment memory r15) (stackAddress s) Fix.page

def dispatched (branch : Branch) (s : Byte) (memory : Memory) : Memory :=
  Function.update (increment (fetched s memory) r15) (stackAddress (s - 1#8))
    ((branch.entry - 1#16).setWidth 8)

theorem fetched_same (s : Byte) (memory : Memory) :
    SameOutside (RoundCell s) memory (fetched s memory) :=
  (increment_same s memory).update_hidden (.inr (.inr (.inl rfl))) _

theorem dispatched_same (branch : Branch) (s : Byte) (memory : Memory) :
    SameOutside (RoundCell s) memory (dispatched branch s memory) :=
  ((fetched_same s memory).trans (increment_same s _)).update_hidden (.inr (.inr (.inr rfl))) _

theorem dispatched_counter (branch : Branch) (s : Byte) (memory : Memory) :
    register (dispatched branch s memory) r15 = register memory r15 + 1#16 + 1#16 := by
  rw [dispatched, Fix.register_push, increment, register_setRegister, fetched, Fix.register_push,
    increment, register_setRegister]

theorem pushed_page (s : Byte) (memory : Memory) :
    increment (fetched s memory) r15 (stackAddress s) = Fix.page := by
  obtain ⟨notLow, notHigh⟩ := stack_ne_register s r15
  rw [increment, setRegister_of_ne _ _ notLow notHigh, fetched, Function.update_self]

def dispatchedCpu (branch : Branch) (cpu : Cpu) (flags : Flags) : Cpu where
  a := cpu.memory r14h >>> 1
  x := branch.opcode <<< 1
  y := 0#8
  s := cpu.s
  p := flags
  pc := branch.entry
  memory := dispatched branch cpu.s cpu.memory

theorem enters_leads (byte : Byte) (entry : Word) (installed : Fix.roundImage.Installed cpu.memory)
    (entered : cpu.pc = Fix.sw16c) (counter : register (increment cpu.memory r15) r15 = p)
    (opcode : increment cpu.memory r15 p = byte) (apart : p ≠ stackAddress cpu.s)
    (other : byte &&& 0xF0#8 = 0#8)
    (listed : ∀ memory, Fix.roundImage.Installed memory →
      memory (Fix.brtbl + ((byte &&& 15#8) <<< 1).setWidth 16) = (entry - 1#16).setWidth 8)
    (behind : (Fix.page ++ (entry - 1#16).setWidth 8) + 1#16 = entry) :
    ∃ flags : Flags, flags.decimal = cpu.p.decimal ∧ flags.carry = resultCarry cpu.memory ∧
      Leads Fix.roundImage cpu.s cpu
        { a := cpu.memory r14h >>> 1
          x := (byte &&& 15#8) <<< 1
          y := 0#8
          s := cpu.s
          p := flags
          pc := entry
          memory := Function.update (increment (fetched cpu.s cpu.memory) r15)
            (stackAddress (cpu.s - 1#8)) ((entry - 1#16).setWidth 8) } := by
  have status : increment (fetched cpu.s cpu.memory) r15 r14h = cpu.memory r14h :=
    ((fetched_same cpu.s cpu.memory).trans (increment_same cpu.s _)) _
      (not_roundCell_register (by decide))
  obtain ⟨countedFlags, countedMode, counted⟩ := Fix.advance_leads cpu.s installed
    (entered ▸ Fix.sw16c_code) (entered ▸ (by decide : Fix.sw16c + 6#16 = Fix.sw16d))
  obtain ⟨gotFlags, gotMode, got⟩ :=
    Fix.fetch_leads byte cpu.s counted.installed rfl counter opcode apart
  rw [other, if_pos rfl] at got
  obtain ⟨movedFlags, movedMode, moved⟩ := Fix.advance_leads cpu.s got.installed Fix.tobr_code
    (by decide : Fix.tobr + 6#16 = Fix.tobr2)
  obtain ⟨last, lastMode, carry, arrived⟩ := Fix.dispatch_leads entry moved.installed rfl
    (listed _ moved.installed) behind rfl (pushed_page cpu.s cpu.memory)
  refine ⟨last, ?_, ?_, ?_⟩
  · rw [lastMode, movedMode, gotMode, countedMode]
  · rw [carry, resultCarry, resultCarry]
    exact congrArg (fun byte => byte.getLsbD 0) status
  · rw [← status]
    exact ((counted.trans got).trans moved).trans arrived

theorem dispatch_reaches (start : RoundStart branch p displacement cpu) :
    ∃ flags : Flags, flags.decimal = false ∧ flags.carry = resultCarry cpu.memory ∧
      Leads Fix.roundImage cpu.s cpu (dispatchedCpu branch cpu flags) := by
  have counter : register (increment cpu.memory r15) r15 = p := by
    rw [increment, register_setRegister, start.counter]
  have opcode : increment cpu.memory r15 p = branch.opcode :=
    (increment_same cpu.s cpu.memory p start.outside.1).trans start.opcode
  have apart : p ≠ stackAddress cpu.s := fun same => start.outside.1 (.inr (.inr (.inl same)))
  have numbered : branch.opcode &&& 15#8 = branch.opcode := by cases branch <;> rfl
  obtain ⟨flags, decimal, carry, entered⟩ := enters_leads branch.opcode branch.entry
    start.installed start.entered counter opcode apart (by cases branch <;> rfl)
    (fun memory installed => by
      rw [numbered]
      exact Fix.table_entry branch installed) (by cases branch <;> rfl)
  rw [numbered] at entered
  exact ⟨flags, decimal.trans start.binary, carry, entered⟩

theorem round_leads (start : RoundStart branch p displacement cpu) :
    ∃ last, Leads Fix.roundImage cpu.s cpu last ∧
      Fix.roundImage.Code last.pc [⟨.rts, .implied, 0⟩] ∧ last.s = cpu.s ∧
      register last.memory r15 =
        displaced (p + 1#16) displacement (branch.tested cpu.memory) ∧
      ∀ address, address.toNat < 30 → last.memory address = cpu.memory address := by
  obtain ⟨flags, decimal, carry, entered⟩ := dispatch_reaches start
  have same := dispatched_same branch cpu.s cpu.memory
  have status : dispatched branch cpu.s cpu.memory r14h = cpu.memory r14h :=
    same _ (not_roundCell_register (by decide))
  have counter : register (dispatched branch cpu.s cpu.memory) r15 = p + 1#16 := by
    rw [dispatched_counter, start.counter]
  have here : (dispatchedCpu branch cpu flags).memory
      (register (dispatchedCpu branch cpu flags).memory r15) = displacement := by
    simp only [dispatchedCpu, counter, same _ start.outside.2, start.displacement]
  have shifted : (dispatchedCpu branch cpu flags).a =
      (dispatchedCpu branch cpu flags).memory r14h >>> 1 := by
    simp only [dispatchedCpu, status]
  have told : (dispatchedCpu branch cpu flags).p.carry =
      resultCarry (dispatchedCpu branch cpu flags).memory := by
    simp only [dispatchedCpu, carry, resultCarry, status]
  obtain ⟨last, routine, back, s, -, memory⟩ :=
    Fix.routine_done (dispatchedCpu branch cpu flags) branch entered.installed rfl shifted
      told rfl decimal here
  have kept : last.memory = setRegister (dispatched branch cpu.s cpu.memory) r15
      (displaced (p + 1#16) displacement (branch.tested cpu.memory)) := by
    rw [memory, dispatchedCpu, counter]
    simp only [displaced, tested_congr same start.result]
  refine ⟨last, entered.trans routine, back, s, ?_, fun address below => ?_⟩
  · rw [kept, register_setRegister]
  · rw [kept]
    exact (same.trans (setRegister_same cpu.s _ _)) address (not_roundCell_register below)

theorem branched_iff (start : RoundStart branch p displacement cpu) :
    RoundBranches branch p displacement cpu ↔
      displaced (p + 1#16) displacement (branch.tested cpu.memory) =
        displaced (p + 1#16) displacement (branch.condition cpu.memory) := by
  obtain ⟨last, leads, back, s, counter, kept⟩ := round_leads start
  have here := leads.installed.decode back
  have stepped : last.step = some (last.execute ⟨.rts, .implied, 0⟩) := by
    simp [Cpu.step, here]
  obtain ⟨fuel, ran⟩ := leads.advances.returns ⟨s, by simp [here]⟩ stepped
  constructor
  · rintro ⟨again, final, returned, branched⟩
    rw [← runToReturn_unique ran returned] at branched
    rw [← branched.counter, ← counter]
    rfl
  · intro same
    exact ⟨fuel, _, ran, counter.trans same, kept⟩

/-- For every state of the processor and memory, SW16C branches as the instruction set says
exactly if the test for minus one is sound. -/
theorem round_branches_iff (branch : Branch) (p : Word) (displacement : Byte) (cpu : Cpu)
    (start : RoundStart branch p displacement cpu) :
    RoundBranches branch p displacement cpu ↔ branch.Sound cpu.memory displacement := by
  rw [branched_iff start, sound_iff]

end Round

def branchingCells (branch : Branch) : Memory := fun address =>
  if address = r0l ∨ address = r0h then 0xFF
  else if address = r15l then 0xFF
  else if address = r15h then 0x0F
  else if address = 0x1000 then branch.opcode
  else if address = 0x1001 then 0x05
  else 0x00

def branchingMemory (branch : Branch) : Memory :=
  Fix.roundImage.load (branchingCells branch)

def branchingCpu (branch : Branch) : Cpu where
  a := 0x11
  x := 0x22
  y := 0x33
  s := 0xFB
  p := Flags.ofByte 0x01
  pc := Fix.sw16c
  memory := branchingMemory branch

theorem branchingMemory_free {address : Word} (free : Fix.roundImage address = none)
    (branch : Branch) : branchingMemory branch address = branchingCells branch address :=
  Image.load_of_none free _

theorem branchingCpu_start (branch : Branch) :
    RoundStart branch 0x1000 0x05 (branchingCpu branch) where
  installed := Image.installed_load _ _
  entered := rfl
  binary := rfl
  counter := by
    have lowByte : branchingMemory branch r15l = 0xFF :=
      branchingMemory_free (Fix.round_clear r15l (by decide)) branch
    have highByte : branchingMemory branch r15h = 0x0F :=
      branchingMemory_free (Fix.round_clear r15h (by decide)) branch
    simp only [branchingCpu, register, Fix.low_r15, Fix.high_r15, lowByte, highByte]
    decide
  opcode := by
    have free : Fix.roundImage 0x1000 = none := rfl
    simp only [branchingCpu, branchingMemory_free free branch]
    rfl
  displacement := by
    have free : Fix.roundImage (0x1000 + 1#16) = none := rfl
    simp only [branchingCpu, branchingMemory_free free branch]
    rfl
  outside := by
    have apart : ¬ RoundCell 0xFB 0x1000 ∧ ¬ RoundCell 0xFB (0x1000 + 1#16) := by decide
    exact apart
  result := by
    have zero : branchingMemory branch r14h = 0x00 :=
      branchingMemory_free (Fix.round_clear r14h (by decide)) branch
    simp only [branchingCpu, zero]
    decide

theorem round_branches_nonzero : RoundBranches .bnz 0x1000 0x05 (branchingCpu .bnz) :=
  (round_branches_iff .bnz 0x1000 0x05 (branchingCpu .bnz) (branchingCpu_start .bnz)).mpr True.intro

theorem round_branches_fails :
    ¬ ∀ (branch : Branch) (p : Word) (displacement : Byte) (cpu : Cpu),
      RoundStart branch p displacement cpu → RoundBranches branch p displacement cpu := by
  intro claim
  have start := branchingCpu_start .bm1
  have branches := (branched_iff start).mp (claim .bm1 0x1000 0x05 (branchingCpu .bm1) start)
  have sound := (sound_iff .bm1 (branchingCpu .bm1).memory _ _).mp branches
  have unsound : ¬ Branch.Sound (branchingCpu .bm1).memory 0x05 .bm1 := by
    unfold Branch.Sound
    decide +kernel
  exact unsound sound

end Akiso.Sweet16
