import Akiso.Asm.Interpreter

set_option autoImplicit false

namespace Akiso.Sweet16

open Mos6502

namespace RegisterOp

def entry : RegisterOp → Word
  | set => Fix.set
  | ld => Fix.ld
  | st => Fix.st
  | indirect handler => Fix.entry handler
  | lddat => Fix.lddat
  | stdat => Fix.stdat
  | add => Fix.add
  | sub => Fix.sub
  | cpr => Fix.cpr
  | inr => Fix.inr
  | dcr => Fix.dcr

def doubled : RegisterOp → Byte
  | set => 0x02
  | ld => 0x04
  | st => 0x06
  | indirect .ldat => 0x08
  | indirect .stat => 0x0A
  | lddat => 0x0C
  | stdat => 0x0E
  | indirect .pop => 0x10
  | indirect .stpat => 0x12
  | add => 0x14
  | sub => 0x16
  | indirect .popd => 0x18
  | cpr => 0x1A
  | inr => 0x1C
  | dcr => 0x1E

end RegisterOp

theorem opcode_halves (byte : Byte) :
    (byte &&& 15#8) <<< 1 = index (byte.extractLsb' 0 4) ∧
      (byte &&& 0xF0#8) >>> 3 = (byte.extractLsb' 4 4).setWidth 8 <<< 1 ∧
      (byte &&& 0xF0#8 = 0#8 ↔ byte.extractLsb' 4 4 = 0#4) := by
  revert byte
  decide

theorem doubled_number : ∀ number : BitVec 4, number ≠ 0#4 →
    (registerOps[number.toNat - 1]?).map RegisterOp.doubled = some (number.setWidth 8 <<< 1) := by
  decide

theorem decode_onRegister {byte : Byte} {operation : RegisterOp} {n : BitVec 4}
    (decoded : decodeOp byte = some (.onRegister operation n)) :
    (byte &&& 15#8) <<< 1 = index n ∧ byte &&& 0xF0#8 ≠ 0#8 ∧
      (byte &&& 0xF0#8) >>> 3 = operation.doubled := by
  obtain ⟨register, number, zero⟩ := opcode_halves byte
  rw [decodeOp] at decoded
  split at decoded
  next =>
    have listed := List.mem_of_getElem? (Option.join_eq_some_iff.mp decoded)
    simp [otherOps] at listed
  next other =>
    obtain ⟨found, here, same⟩ := Option.map_eq_some_iff.mp decoded
    obtain ⟨rfl, rfl⟩ := Op.onRegister.inj same
    have doubled := doubled_number _ other
    rw [here, Option.map_some, Option.some.injEq] at doubled
    exact ⟨register, fun none => other (zero.mp none), number.trans doubled.symm⟩

namespace Op

def entry : Op → Word
  | branch test => test.entry
  | nul => Fix.nul
  | _ => Fix.rtn

end Op

theorem decode_other {byte : Byte} {op : Op} (decoded : decodeOp byte = some op)
    (other : ∀ operation n, op ≠ .onRegister operation n) :
    byte &&& 0xF0#8 = 0#8 ∧ ∃ number : BitVec 4, (byte &&& 15#8) <<< 1 = index number ∧
      otherOps[number.toNat]? = some (some op) := by
  obtain ⟨register, -, zero⟩ := opcode_halves byte
  rw [decodeOp] at decoded
  split at decoded
  next none => exact ⟨zero.mpr none, _, register, Option.join_eq_some_iff.mp decoded⟩
  next =>
    obtain ⟨found, -, same⟩ := Option.map_eq_some_iff.mp decoded
    exact absurd same.symm (other _ _)

namespace Fix

theorem tables_free {offset : Nat} (inside : offset < 32) :
    roundListing.image (optbl + BitVec.ofNat 16 offset) = none := by
  have here : (optbl + BitVec.ofNat 16 offset).toNat = optbl.toNat + offset := by
    have base : optbl.toNat = 42723 := rfl
    rw [BitVec.toNat_add, BitVec.toNat_ofNat, base]
    omega
  refine roundListing.image_none (fun address => optbl.toNat ≤ address.toNat ∧
    address.toNat < optbl.toNat + 32) rfl ?_
  simp [here, inside]

theorem table_byte {memory : Memory} (installed : roundImage.Installed memory) {offset : Nat}
    {label : Option Word} (listed : tables[offset]? = some label) :
    memory (optbl + BitVec.ofNat 16 offset) = tableByte label := by
  have inside : offset < 32 := (List.getElem?_eq_some_iff.mp listed).1
  refine installed _ _ ?_
  have back : (optbl + BitVec.ofNat 16 offset - optbl).toNat = offset := by
    rw [BitVec.add_comm, BitVec.add_sub_cancel, BitVec.toNat_ofNat]
    omega
  rw [roundImage, tables_free inside, back, listed]
  rfl

def before (entry : Word) : Byte :=
  (entry - 1#16).setWidth 8

theorem operation_listed (operation : RegisterOp) :
    tables[operation.doubled.toNat - 2]? = some (some operation.entry) := by
  cases operation with
  | indirect handler => cases handler <;> rfl
  | _ => rfl

theorem operation_behind (operation : RegisterOp) :
    (page ++ before operation.entry) + 1#16 = operation.entry := by
  cases operation with
  | indirect handler => cases handler <;> rfl
  | _ => rfl

theorem operation_byte {memory : Memory} (installed : roundImage.Installed memory)
    (operation : RegisterOp) :
    memory (optbl - 2#16 + operation.doubled.setWidth 16) = before operation.entry := by
  have here := table_byte installed (operation_listed operation)
  have place : optbl - 2#16 + operation.doubled.setWidth 16 =
      optbl + BitVec.ofNat 16 (operation.doubled.toNat - 2) := by
    cases operation with
    | indirect handler => cases handler <;> rfl
    | _ => rfl
  rw [place, here]
  rfl

theorem other_listed : ∀ number : BitVec 4, otherOps[number.toNat]?.join.all (fun op =>
    tables[(index number).toNat + 1]? == some (some op.entry) &&
      (page ++ before op.entry) + 1#16 == op.entry) = true := by
  decide

theorem other_byte {memory : Memory} (installed : roundImage.Installed memory) {op : Op}
    {number : BitVec 4} (found : otherOps[number.toNat]? = some (some op)) :
    memory (brtbl + (index number).setWidth 16) = before op.entry := by
  have listed := other_listed number
  simp only [found, Option.join_some, Option.all_some, Bool.and_eq_true, beq_iff_eq] at listed
  have place : brtbl + (index number).setWidth 16 =
      optbl + BitVec.ofNat 16 ((index number).toNat + 1) := by
    have base : brtbl = optbl + 1#16 := rfl
    rw [base, BitVec.ofNat_add, BitVec.add_assoc, BitVec.add_comm 1#16, BitVec.ofNat_toNat]
  rw [place, table_byte installed listed.1]
  rfl

theorem other_behind {op : Op} {number : BitVec 4}
    (found : otherOps[number.toNat]? = some (some op)) :
    (page ++ before op.entry) + 1#16 = op.entry := by
  have listed := other_listed number
  simp only [found, Option.join_some, Option.all_some, Bool.and_eq_true, beq_iff_eq] at listed
  exact listed.2

def registerOpCode : List Instruction :=
  [⟨.stx, .zeroPage, r14h⟩, ⟨.lsr, .accumulator, 0⟩, ⟨.lsr, .accumulator, 0⟩,
    ⟨.lsr, .accumulator, 0⟩, ⟨.tay, .implied, 0⟩, ⟨.lda, .absoluteY, optbl - 2⟩,
    ⟨.pha, .implied, 0⟩]

-- RTS goes to the routine, whose address has been pushed with the page.
theorem registerOp_leads (cpu : Cpu) {level : Byte} {operation : RegisterOp}
    (installed : restImage.Installed cpu.memory) (tables : roundImage.Installed cpu.memory)
    (entered : cpu.pc = registerOp) (numbered : cpu.a >>> 3 = operation.doubled)
    (even : cpu.a.getLsbD 2 = false) (pushed : cpu.s = level - 1#8)
    (high : cpu.memory (stackAddress level) = page) :
    ∃ flags : Flags, flags.decimal = cpu.p.decimal ∧ flags.carry = false ∧
      flags.negative = (before operation.entry).msb ∧ Leads restImage level cpu
        { cpu with
          a := before operation.entry
          y := operation.doubled
          s := level
          p := flags
          pc := operation.entry
          memory := Function.update (Function.update cpu.memory r14h cpu.x)
            (stackAddress (level - 1#8)) (before operation.entry) } := by
  have code : restImage.Code registerOp (registerOpCode ++ [⟨.rts, .implied, 0⟩]) :=
    rest_code (by decide)
  have run := Leads.block level registerOpCode installed (entered ▸ code.take 7) (by decide)
    (by simp [registerOpCode, Image.Apart, Cpu.writes, Cpu.past, rest_clear.stack, rest_free])
  have apart : optbl - 2#16 + operation.doubled.setWidth 16 ≠ r14h := by
    cases operation with
    | indirect handler => cases handler <;> decide
    | _ => decide
  have entry := operation_byte tables operation
  have loaded : cpu.block registerOpCode =
      { cpu with
        a := before operation.entry
        y := operation.doubled
        s := level - 2#8
        p := (cpu.block registerOpCode).p
        pc := registerOp + 10#16
        memory := Function.update (Function.update cpu.memory r14h cpu.x)
          (stackAddress (level - 1#8)) (before operation.entry) } := by
    have down : level - 1#8 - 1#8 = level - 2#8 := by bv_omega
    simp [registerOpCode, Cpu.value, Cpu.address, numbered, apart, entry, pushed, down, entered,
      BitVec.add_assoc]
  have inside : (cpu.block registerOpCode).s ≠ level := by
    rw [loaded]
    bv_omega
  have returned := run.trans (.step level ⟨.rts, .implied, 0⟩ run.installed
    (by rw [loaded]; exact code.drop 7) (by simp) (fun _ => inside) (by simp [Cpu.writes]))
  have up : level - 2#8 + 2#8 = level ∧ level - 2#8 + 1#8 = level - 1#8 := by
    constructor <;> bv_omega
  have kept : stackAddress level ≠ stackAddress (level - 1#8) := fun same => by
    have := stackAddress_inj same
    bv_omega
  have free : stackAddress level ≠ r14h := (stack_ne_register level 0x1D#8).1
  have behind := operation_behind operation
  rw [execute_rts, loaded] at returned
  simp only [up, Function.update_self, Function.update_of_ne kept, Function.update_of_ne free, high,
    behind] at returned
  refine ⟨(cpu.block registerOpCode).p, by simp [registerOpCode], ?_, ?_, returned⟩
  · simpa [registerOpCode] using even
  · simp [registerOpCode, Cpu.value, Cpu.address, numbered, apart, entry]

end Fix

end Akiso.Sweet16
