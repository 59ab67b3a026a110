import Akiso.Asm.Programs

set_option autoImplicit false

/-!
# The program of sweet16_fix.asm

It stores the low byte of R2 where R1 points, R3 times, and shifts R2 by four bits after each.
-/

namespace Akiso.Sweet16.Shifting

open Mos6502

def start : Word := 0x1000

def size : Nat := 24

def code (destination value count : Word) : List Byte :=
  [0x20, 0x89, 0xA6,
    0x11, destination.setWidth 8, (destination >>> 8).setWidth 8,
    0x12, value.setWidth 8, (value >>> 8).setWidth 8,
    0x13, count.setWidth 8, (count >>> 8).setWidth 8,
    0x22, 0x72, 0x72, 0x72, 0x72, 0x51, 0xF3, 0x07, 0xF7, 0x00,
    0x00, 0x00]

def Loaded (destination value count : Word) (memory : Memory) : Prop :=
  ∀ place < size,
    (code destination value count)[place]? = some (memory (start + BitVec.ofNat 16 place))

def InProgram (address : Word) : Prop :=
  start.toNat ≤ address.toNat ∧ address.toNat < start.toNat + size

instance (address : Word) : Decidable (InProgram address) :=
  inferInstanceAs (Decidable (_ ∧ _))

def Free (level : Byte) (address : Word) : Prop :=
  32 ≤ address.toNat ∧ ¬ Owned level address ∧ ¬ InProgram address

structure Stored (destination value : Word) (done : Nat) (memory final : Memory) : Prop where
  bytes : ∀ place < done,
    final (destination + BitVec.ofNat 16 place) = (value >>> (4 * place)).setWidth 8
  rest : ∀ address, (∀ place < done, address ≠ destination + BitVec.ofNat 16 place) →
    final address = memory address

structure AtLOOP (destination value count : Word) (memory : Memory) (done : Nat)
    (machine : Machine) : Prop where
  counter : machine.registers 15#4 = if done < count.toNat then 0x100B#16 else 0x1014#16
  pointer : machine.registers 1#4 = destination + BitVec.ofNat 16 done
  shifted : machine.registers 2#4 = value >>> (4 * done)
  left : machine.registers 3#4 = count - BitVec.ofNat 16 done
  stored : Stored destination value done memory machine.beyond

variable {level : Byte} {destination value count : Word} {memory : Memory} {machine : Machine}

theorem program_not_owned {address : Word} (inside : InProgram address) :
    ¬ Owned level address := by
  obtain ⟨first, last⟩ := inside
  have low : 0x1000 ≤ address.toNat := first
  have high : address.toNat < 0x1018 := last
  exact not_owned (by omega) (by omega)

theorem places_near {p address : Word} {op : Op} (part : address ∈ op.places p) :
    address = p ∨ address = p + 1#16 ∨ address = p + 2#16 := by
  unfold Op.places at part
  split at part
  next => simpa using part
  next => exact (List.mem_cons.mp part).imp_right fun rest => .inl (List.mem_singleton.mp rest)
  next => exact .inl (List.mem_singleton.mp part)

theorem place_inside {place : Nat} (inside : place + 3 ≤ size) {op : Op} {address : Word}
    (part : address ∈ op.places (start + BitVec.ofNat 16 place)) : InProgram address := by
  have bound : place + 3 ≤ 24 := inside
  have value : (start + BitVec.ofNat 16 place).toNat = 4096 + place := by
    rw [start]
    bv_omega
  suffices 4096 ≤ address.toNat ∧ address.toNat < 4120 from this
  rcases places_near part with rfl | rfl | rfl
  · omega
  · rw [BitVec.toNat_add, value, BitVec.toNat_ofNat]
    omega
  · rw [BitVec.toNat_add, value, BitVec.toNat_ofNat]
    omega

theorem next_at (place : Nat) (byte : Byte) (op : Op)
    (loaded : Loaded destination value count machine.beyond)
    (counter : machine.registers 15#4 + 1#16 = start + BitVec.ofNat 16 place)
    (decoded : decodeOp byte = some op) (inside : place + 3 ≤ size)
    (listed : (code destination value count)[place]? = some byte) :
    machine.Next (Owned level) op := by
  have here := place_inside inside (mem_places _ op)
  refine ⟨?_, ?_, ?_⟩
  · rw [counter, ← decoded]
    exact congrArg decodeOp (Option.some.inj ((loaded place (by omega)).symm.trans listed))
  · rw [counter]
    exact Nat.le_trans (by decide) here.1
  · rw [counter]
    exact fun address part => program_not_owned (place_inside inside part)

theorem Loaded.congr {other : Memory} (loaded : Loaded destination value count memory)
    (same : ∀ address, InProgram address → other address = memory address) :
    Loaded destination value count other := by
  intro place inside
  have bound : place < 24 := inside
  have here : InProgram (start + BitVec.ofNat 16 place) := by
    suffices 4096 ≤ (start + BitVec.ofNat 16 place).toNat ∧
      (start + BitVec.ofNat 16 place).toNat < 4120 from this
    rw [start]
    constructor <;> bv_omega
  rw [same _ here]
  exact loaded place inside

theorem place_ne (destination : Word) {count one other : Nat} (few : count ≤ 65536)
    (first : one < count) (second : other < count) (apart : one ≠ other) :
    destination + BitVec.ofNat 16 one ≠ destination + BitVec.ofNat 16 other := by
  intro same
  bv_omega

theorem Stored.next {done : Nat} {final : Memory} (few : done < 65536)
    (stored : Stored destination value done memory final) :
    Stored destination value (done + 1) memory (Function.update final
      (destination + BitVec.ofNat 16 done) ((value >>> (4 * done)).setWidth 8)) where
  bytes place inside := by
    by_cases last : place = done
    · subst last
      exact Function.update_self _ _ _
    · have apart := place_ne destination few inside (Nat.lt_succ_self done) last
      rw [Function.update_of_ne apart]
      exact stored.bytes place (by omega)
  rest address outside := by
    rw [Function.update_of_ne (outside done (by omega))]
    exact stored.rest address fun place inside => outside place (by omega)

theorem loop_round {done : Nat} (more : done < count.toNat)
    (loaded : Loaded destination value count memory)
    (free : ∀ place < count.toNat, Free level (destination + BitVec.ofNat 16 place))
    (here : AtLOOP destination value count memory done machine) :
    ∃ next, machine.Runs (Owned level) next ∧
      AtLOOP destination value count memory (done + 1) next := by
  obtain ⟨counter, pointer, shifted, left, stored⟩ := here
  have few : done < 65536 := by have := count.isLt; omega
  have onward := stored.next few
  have kept {done : Nat} {final : Memory} (upTo : done ≤ count.toNat)
      (stored : Stored destination value done memory final) :
      Loaded destination value count final :=
    loaded.congr fun address program => stored.rest address fun place inside same =>
      (free place (by omega)).2.2 (same ▸ program)
  have still := kept (by omega) stored
  have after := kept (by omega) onward
  have target := free done more
  rw [if_pos more] at counter
  -- one instruction after the other, from LOOP to BNZ
  have first : machine.Runs (Owned level) _ := Machine.Next.ld (next_at 12 0x22#8 _ still
    (by simp [counter, start]) (by decide) (by decide) rfl) (by decide : 2#4 ≠ 14#4)
  have once := first.trans (Machine.Next.stdat (next_at 13 0x72#8 _ still
    (by simp [counter, start]) (by decide) (by decide) rfl) (by decide : 2#4 ≠ 14#4))
  have twice := once.trans (Machine.Next.stdat (next_at 14 0x72#8 _ still
    (by simp [counter, start]) (by decide) (by decide) rfl) (by decide : 2#4 ≠ 14#4))
  have thrice := twice.trans (Machine.Next.stdat (next_at 15 0x72#8 _ still
    (by simp [counter, start]) (by decide) (by decide) rfl) (by decide : 2#4 ≠ 14#4))
  have shifting := thrice.trans (Machine.Next.stdat (next_at 16 0x72#8 _ still
    (by simp [counter, start]) (by decide) (by decide) rfl) (by decide : 2#4 ≠ 14#4))
  have storing := shifting.trans (Machine.Next.stat (next_at 17 0x51#8 _ still
    (by simp [counter, start]) (by decide) (by decide) rfl) (by decide : 1#4 ≠ 14#4)
    (by simpa [pointer] using target.1) (by simpa [pointer] using target.2.1))
  have counting := storing.trans (Machine.Next.dcr (next_at 18 0xF3#8 _
    (by simpa [pointer, shifted] using after)
    (by simp [counter, start]) (by decide) (by decide) rfl) (by decide : 3#4 ≠ 14#4))
  have branching := counting.trans (Machine.Next.bnz (next_at 19 0x07#8 _
    (by simpa [pointer, shifted] using after)
    (by simp [counter, start]) (by decide) (by decide) rfl) (by decide : 3#4 ≠ 14#4)
    (by decide : 3#4 ≠ 15#4) rfl (by simp [counter]))
  have back : Function.update machine.beyond (destination + BitVec.ofNat 16 done)
      ((value >>> (4 * done)).setWidth 8) 0x1014#16 = 0xF7#8 :=
    (Option.some.inj (after 20 (by decide))).symm
  have pointing : destination + BitVec.ofNat 16 done + 1#16 =
      destination + BitVec.ofNat 16 (done + 1) := by
    rw [BitVec.ofNat_add, BitVec.add_assoc]
  have remaining : count - BitVec.ofNat 16 done - 1#16 = count - BitVec.ofNat 16 (done + 1) := by
    rw [BitVec.ofNat_add, BitVec.sub_sub]
  have shift : value >>> (4 * done) >>> 4 = value >>> (4 * (done + 1)) := by
    rw [← BitVec.shiftRight_add]
    rfl
  have ended : count - BitVec.ofNat 16 done - 1#16 = 0#16 ↔ ¬ done + 1 < count.toNat := by
    constructor <;> intro reached <;> bv_omega
  refine ⟨_, branching, ?_, ?_, ?_, ?_, ?_⟩
  · by_cases again : done + 1 < count.toNat <;>
      simp [counter, left, pointer, shifted, back, ended, again, displaced]
  · simpa [pointer] using pointing
  · simpa [shifted] using shift
  · simpa [left] using remaining
  · simpa [pointer, shifted] using onward

theorem loop_runs {done : Nat} (upTo : done ≤ count.toNat)
    (loaded : Loaded destination value count memory)
    (free : ∀ place < count.toNat, Free level (destination + BitVec.ofNat 16 place))
    (first : AtLOOP destination value count memory 0 machine) :
    ∃ next, machine.Runs (Owned level) next ∧
      AtLOOP destination value count memory done next := by
  induction done with
  | zero => exact ⟨machine, .refl _ machine, first⟩
  | succ done ih =>
    obtain ⟨middle, runs, here⟩ := ih (by omega)
    obtain ⟨next, round, after⟩ := loop_round (by omega) loaded free here
    exact ⟨next, runs.trans round, after⟩

theorem set_at (place : Nat) (byte : Byte) (n : BitVec 4) (value : Word)
    {destination shifted count : Word} (loaded : Loaded destination shifted count machine.beyond)
    (counter : machine.registers 15#4 + 1#16 = start + BitVec.ofNat 16 place)
    (used : n ≠ 14#4 ∧ n ≠ 15#4) (decoded : decodeOp byte = some (.onRegister .set n))
    (inside : place + 3 ≤ size)
    (opcode : (code destination shifted count)[place]? = some byte)
    (first : (code destination shifted count)[place + 1]? = some (value.setWidth 8))
    (second : (code destination shifted count)[place + 2]? = some ((value >>> 8).setWidth 8)) :
    machine.Runs (Owned level) (((machine.fetched.marked n).set n value).set 15#4
      (machine.registers 15#4 + 3#16)) := by
  have bound : place + 3 ≤ 24 := inside
  have here : machine.Next (Owned level) _ :=
    next_at place byte _ loaded counter decoded inside opcode
  have lowPlace : machine.registers 15#4 + 2#16 = start + BitVec.ofNat 16 (place + 1) := by
    rw [BitVec.ofNat_add, ← BitVec.add_assoc, ← counter, BitVec.add_assoc]
    rfl
  have highPlace : machine.registers 15#4 + 3#16 = start + BitVec.ofNat 16 (place + 2) := by
    rw [BitVec.ofNat_add, ← BitVec.add_assoc, ← counter, BitVec.add_assoc]
    rfl
  have lowByte := Option.some.inj ((loaded (place + 1) (by omega)).symm.trans first)
  have highByte := Option.some.inj ((loaded (place + 2) (by omega)).symm.trans second)
  have runs := here.set_constant used.1 used.2 (lowPlace ▸ lowByte) (highPlace ▸ highByte) (by
    rw [start] at counter
    bv_omega)
  rwa [append_halves] at runs

theorem constants_run (positive : 0 < count.toNat)
    (loaded : Loaded destination value count machine.beyond)
    (counter : machine.registers 15#4 = 0x1002#16) :
    ∃ next, machine.Runs (Owned level) next ∧
      AtLOOP destination value count machine.beyond 0 next := by
  have pointer : machine.Runs (Owned level) _ := set_at 3 0x11#8 1#4 destination loaded
    (by simp [counter, start]) (by decide) (by decide) (by decide) rfl rfl rfl
  have word := pointer.trans (set_at 6 0x12#8 2#4 value loaded
    (by simp [counter, start]) (by decide) (by decide) (by decide) rfl rfl rfl)
  have limit := word.trans (set_at 9 0x13#8 3#4 count loaded
    (by simp [counter, start]) (by decide) (by decide) (by decide) rfl rfl rfl)
  refine ⟨_, limit, ?_, ?_, ?_, ?_, ?_⟩
  · simp [counter, positive]
  · simp
  · simp
  · simp
  · exact ⟨fun _ none => absurd none (by omega), fun _ _ => rfl⟩

def seen (memory : Memory) : Machine where
  registers n := register memory (index n)
  status := memory r14h
  beyond := memory

theorem seen_in (memory : Memory) : (seen memory).In memory :=
  ⟨fun _ _ => rfl, rfl, fun _ _ => rfl⟩

theorem inProgram_high {address : Word} (inside : InProgram address) : 32 ≤ address.toNat :=
  Nat.le_trans (by decide) inside.1

theorem call_decoded (loaded : Loaded destination value count memory) :
    Mos6502.decode memory start = some ⟨.jsr, .absolute, Fix.sweet16⟩ := by
  have first : memory start = 0x20#8 := (Option.some.inj (loaded 0 (by decide))).symm
  have second : memory (start + 1#16) = 0x89#8 := (Option.some.inj (loaded 1 (by decide))).symm
  have third : memory (start + 2#16) = 0xA6#8 := (Option.some.inj (loaded 2 (by decide))).symm
  have row : opcodes.find? (fun row => row.1 = 0x20#8) = some (0x20#8, .jsr, .absolute) := rfl
  have target : operandAt memory start .absolute = Fix.sweet16 := by
    change memory (start + 2#16) ++ memory (start + 1#16) = Fix.sweet16
    rw [second, third]
    rfl
  rw [Mos6502.decode, first, row]
  simp only [Option.map_some, target]

theorem program_runs (cpu : Cpu) (entered : cpu.pc = start)
    (loaded : Loaded destination value count cpu.memory) (positive : 0 < count.toNat)
    (free : ∀ place < count.toNat, Free cpu.s (destination + BitVec.ofNat 16 place)) :
    ∃ last, (seen (started cpu)).Runs (Owned cpu.s) last ∧ last.Next (Owned cpu.s) .rtn ∧
      last.registers 15#4 = 0x1014#16 ∧
      Stored destination value count.toNat (started cpu) last.beyond := by
  have code : Loaded destination value count (started cpu) := loaded.congr fun address inside =>
    have unowned : ¬ Owned cpu.s address := program_not_owned inside
    started_apart cpu (inProgram_high inside) fun cell => unowned (.inr (.inr cell))
  have counter : (seen (started cpu)).registers 15#4 = 0x1002#16 := by
    change register (setRegister (saved cpu) r15 (cpu.pc + 2#16)) r15 = _
    rw [register_setRegister, entered]
    rfl
  obtain ⟨middle, constants, first⟩ := constants_run positive code counter
  obtain ⟨last, rounds, ended⟩ := loop_runs (Nat.le_refl _) code free first
  obtain ⟨counter, -, -, -, stored⟩ := ended
  rw [if_neg (Nat.lt_irrefl _)] at counter
  have still : Loaded destination value count last.beyond := code.congr fun address inside =>
    stored.rest address fun place below same => (free place below).2.2 (same ▸ inside)
  exact ⟨last, constants.trans rounds, next_at 21 0x00#8 _ still (by simp [counter, start])
    (by decide) (by decide) rfl, counter, stored⟩

/-- The program called where it lies stores the value four bits further on each time. -/
theorem program_stores (cpu : Cpu) (destination value count : Word)
    (resident : Fix.Resident cpu.memory) (entered : cpu.pc = start)
    (loaded : Loaded destination value count cpu.memory) (positive : 0 < count.toNat)
    (free : ∀ place < count.toNat, Free cpu.s (destination + BitVec.ofNat 16 place)) :
    ∃ last, Executes cpu last ∧ Returned cpu 0x1016#16 last ∧
      (∀ place < count.toNat, last.memory (destination + BitVec.ofNat 16 place) =
        (value >>> (4 * place)).setWidth 8) ∧
      ∀ address, 32 ≤ address.toNat → ¬ Owned cpu.s address →
        (∀ place < count.toNat, address ≠ destination + BitVec.ofNat 16 place) →
          last.memory address = cpu.memory address := by
  have call := entered ▸ call_decoded loaded
  obtain ⟨last, runs, ends, counter, stored⟩ := program_runs cpu entered loaded positive free
  obtain ⟨back, executes, returned, shown⟩ := runs.called resident call (seen_in _) ends
  rw [counter] at returned
  refine ⟨back, executes, returned, fun place below => ?_, fun address high apart outside => ?_⟩
  · obtain ⟨high, apart, -⟩ := free place below
    rw [shown _ high fun work => apart (.inl work), stored.bytes place below]
  · rw [shown _ high fun work => apart (.inl work), stored.rest address outside]
    exact started_apart cpu high fun cell => apart (.inr (.inr cell))

def fileCells : Memory := fun address =>
  ((code 0x2000 0xABCD 0x0005)[address.toNat - start.toNat]?).getD 0x00

def fileCpu : Cpu where
  a := 0x11
  x := 0x22
  y := 0x33
  s := 0xFB
  p := Flags.ofByte 0x01
  pc := start
  memory := Fix.interpreter fileCells

theorem file_loaded : Loaded 0x2000 0xABCD 0x0005 fileCpu.memory := by
  intro place inside
  have bound : place < 24 := inside
  have value : (start + BitVec.ofNat 16 place).toNat = 4096 + place := by
    rw [start]
    bv_omega
  have free : ¬ Fix.CodeCell (start + BitVec.ofNat 16 place) := fun cell => by
    have := Fix.codeCell_high cell
    omega
  have index : (start + BitVec.ofNat 16 place).toNat - start.toNat = place := by
    rw [value, start]
    exact Nat.add_sub_cancel_left _ _
  have length : place < (code 0x2000 0xABCD 0x0005).length := bound
  have here : fileCpu.memory (start + BitVec.ofNat 16 place) = _ :=
    Fix.interpreter_of_free free fileCells
  rw [here, fileCells, index, List.getElem?_eq_getElem length]
  rfl

theorem file_free (place : Nat) (below : place < 5) :
    Free fileCpu.s (0x2000#16 + BitVec.ofNat 16 place) := by
  have value : (0x2000#16 + BitVec.ofNat 16 place).toNat = 8192 + place := by bv_omega
  refine ⟨by omega, not_owned (by omega) (by omega), fun inside => ?_⟩
  have : (0x2000#16 + BitVec.ofNat 16 place).toNat < 4120 := inside.2
  omega

theorem program_stores_file :
    ∃ last, Executes fileCpu last ∧ Returned fileCpu 0x1016#16 last ∧
      last.memory 0x2000#16 = 0xCD#8 ∧ last.memory 0x2001#16 = 0xBC#8 ∧
      last.memory 0x2002#16 = 0xAB#8 ∧ last.memory 0x2003#16 = 0x0A#8 ∧
      last.memory 0x2004#16 = 0x00#8 := by
  obtain ⟨last, executes, returned, bytes, -⟩ := program_stores fileCpu 0x2000 0xABCD 0x0005
    (Fix.interpreter_resident fileCells) rfl file_loaded (by decide) file_free
  exact ⟨last, executes, returned, bytes 0 (by decide), bytes 1 (by decide), bytes 2 (by decide),
    bytes 3 (by decide), bytes 4 (by decide)⟩

end Akiso.Sweet16.Shifting

namespace Akiso.Sweet16

open Mos6502 Sweet16.Fix Shifting

/-- A program called as a subroutine, up to RTN: it has been performed, and the processor goes on
behind it with its registers as they were. -/
theorem sweet16_performs (cpu : Cpu) (count : Nat) (final : Memory) (resident : Resident cpu.memory)
    (call : Mos6502.decode cpu.memory cpu.pc = some ⟨.jsr, .absolute, sweet16⟩)
    (fits : FitsFor (Owned cpu.s) (started cpu) (count + 1))
    (ran : rounds count (started cpu) = some final)
    (ends : decodeOp (increment final r15 (register (increment final r15) r15)) = some .rtn) :
    ∃ last, Executes cpu last ∧ Returned cpu (register final r15 + 2#16) last ∧
      SameOutside (Work 6 cpu.s) (increment (increment final r15) r15) last.memory := by
  obtain ⟨looped, performs, arrived⟩ := call_loops resident call (fits.before count.le_succ) ran
  obtain ⟨last, leaves, returned, same⟩ := call_returns arrived fits ran ends
  exact ⟨last, performs.trans leaves, returned, same⟩

theorem sweet16_performs_file :
    ∃ count final last, rounds count (started fileCpu) = some final ∧ Executes fileCpu last ∧
      Returned fileCpu (register final r15 + 2#16) last ∧
      SameOutside (Work 6 fileCpu.s) (increment (increment final r15) r15) last.memory ∧
      final 0x2000#16 = 0xCD#8 ∧ final 0x2003#16 = 0x0A#8 := by
  obtain ⟨machine, runs, ends, -, stored⟩ :=
    program_runs fileCpu rfl file_loaded (by decide) file_free
  obtain ⟨count, final, ran, fits, opcode, seen⟩ := runs.ends (seen_in _) ends
  obtain ⟨last, executes, returned, same⟩ := sweet16_performs fileCpu count final
    (interpreter_resident fileCells) (call_decoded file_loaded) fits ran opcode
  refine ⟨count, final, last, ran, executes, returned, same, ?_, ?_⟩
  · exact (seen.beyond _ (by decide)).trans (stored.bytes 0 (by decide))
  · exact (seen.beyond _ (by decide)).trans (stored.bytes 3 (by decide))

end Akiso.Sweet16
