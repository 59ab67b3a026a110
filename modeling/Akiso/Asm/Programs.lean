import Akiso.Asm.Calls

set_option autoImplicit false

/-!
# Programs of SWEET16

A program sees registers, a status and a memory beyond them. The rules below say what an
instruction does to these, so that a program is followed without the addresses of page zero.
-/

namespace Akiso.Sweet16

open Mos6502

/-- R0 to R15 but for R14, R14H, and what lies beyond the registers. -/
structure Machine where
  registers : BitVec 4 → Word
  status : Byte
  beyond : Memory

structure Machine.In (machine : Machine) (memory : Memory) : Prop where
  registers : ∀ n, n ≠ 14#4 → register memory (index n) = machine.registers n
  status : memory r14h = machine.status
  beyond : ∀ address, 32 ≤ address.toNat → memory address = machine.beyond address

def Machine.set (machine : Machine) (n : BitVec 4) (value : Word) : Machine :=
  { machine with registers := Function.update machine.registers n value }

@[simp] theorem Machine.set_registers (machine : Machine) (n : BitVec 4) (value : Word) :
    (machine.set n value).registers = Function.update machine.registers n value :=
  rfl

@[simp] theorem Machine.set_beyond (machine : Machine) (n : BitVec 4) (value : Word) :
    (machine.set n value).beyond = machine.beyond :=
  rfl

@[simp] theorem Machine.set_status (machine : Machine) (n : BitVec 4) (value : Word) :
    (machine.set n value).status = machine.status :=
  rfl

structure Performs (own : Word → Prop) (count : Nat) (memory final : Memory) : Prop where
  ran : rounds count memory = some final
  fits : FitsFor own memory count

def Machine.Runs (own : Word → Prop) (machine next : Machine) : Prop :=
  ∀ memory, machine.In memory → ∃ count final, Performs own count memory final ∧ next.In final

structure Machine.Next (own : Word → Prop) (machine : Machine) (op : Op) : Prop where
  opcode : decodeOp (machine.beyond (machine.registers 15#4 + 1#16)) = some op
  beyond : 32 ≤ (machine.registers 15#4 + 1#16).toNat
  places : ∀ address ∈ op.places (machine.registers 15#4 + 1#16), ¬ own address

variable {own : Word → Prop} {machine middle next : Machine} {memory final : Memory}
  {n : BitVec 4} {op : Op}

theorem rounds_add (first second : Nat) (memory : Memory) :
    rounds (first + second) memory = (rounds first memory).bind (rounds second) := by
  induction first generalizing memory with
  | zero => simp [rounds]
  | succ first ih =>
    rw [Nat.add_right_comm, rounds, rounds]
    cases interpret memory with
    | none => rfl
    | some following => exact ih following

theorem Performs.refl (own : Word → Prop) (memory : Memory) : Performs own 0 memory memory :=
  ⟨rfl, fun _ inside => absurd inside (by omega)⟩

theorem Performs.trans {between : Memory} {first second : Nat}
    (one : Performs own first memory between) (other : Performs own second between final) :
    Performs own (first + second) memory final := by
  refine ⟨by rw [rounds_add, one.ran]; exact other.ran, fun before inside reached arrived => ?_⟩
  by_cases early : before < first
  · exact one.fits before early reached arrived
  · obtain ⟨later, rfl⟩ := Nat.exists_eq_add_of_le (Nat.le_of_not_lt early)
    rw [rounds_add, one.ran] at arrived
    exact other.fits later (by omega) reached arrived

theorem Performs.single (fit : Fit own memory) (interpreted : interpret memory = some final) :
    Performs own 1 memory final := by
  refine ⟨by rw [rounds, interpreted]; rfl, fun before inside reached arrived => ?_⟩
  obtain rfl : before = 0 := by omega
  cases arrived
  exact fit

theorem Machine.Runs.refl (own : Word → Prop) (machine : Machine) : machine.Runs own machine :=
  fun memory shown => ⟨0, memory, .refl own memory, shown⟩

theorem Machine.Runs.trans (first : machine.Runs own middle) (second : middle.Runs own next) :
    machine.Runs own next := by
  intro memory shown
  obtain ⟨one, between, performed, seen⟩ := first memory shown
  obtain ⟨other, final, finished, last⟩ := second between seen
  exact ⟨one + other, final, performed.trans finished, last⟩

theorem toNat_index_twice (n : BitVec 4) : (index n).toNat = 2 * n.toNat := by
  have := n.isLt
  simp only [index, BitVec.toNat_shiftLeft, BitVec.toNat_setWidth, Nat.shiftLeft_eq]
  omega

theorem register_setRegister_of_ne (memory : Memory) {k : BitVec 4} (other : k ≠ n)
    (value : Word) :
    register (setRegister memory (index n) value) (index k) = register memory (index k) := by
  have apart : k.toNat ≠ n.toNat := fun same => other (BitVec.eq_of_toNat_eq same)
  have first := toNat_low (index n)
  have second := toNat_high (index_small n)
  have lower := toNat_low (index k)
  have upper := toNat_high (index_small k)
  rw [toNat_index_twice] at first second lower upper
  rw [register, setRegister_of_ne, setRegister_of_ne]
  · rfl
  all_goals
    intro same
    have := congrArg BitVec.toNat same
    omega

theorem Machine.In.set (shown : machine.In memory) (other : n ≠ 14#4) (value : Word) :
    (machine.set n value).In (setRegister memory (index n) value) where
  registers k used := by
    by_cases same : k = n
    · subst same
      simp [Machine.set]
    · rw [register_setRegister_of_ne memory same, shown.registers k used]
      simp [Machine.set, same]
  status := by
    rw [setRegister_of_ne memory value, shown.status]
    · rfl
    · revert n
      decide
    · revert n
      decide
  beyond address high := by
    rw [setRegister_apart memory (index_small n) value high]
    exact shown.beyond address high

theorem Machine.In.status_set (shown : machine.In memory) (byte : Byte) :
    { machine with status := byte : Machine }.In (Function.update memory r14h byte) where
  registers k used := by
    have apart : low (index k) ≠ r14h ∧ high (index k) ≠ r14h := by
      revert k
      decide
    simpa [register, apart] using shown.registers k used
  status := Function.update_self _ _ _
  beyond address high := by
    rw [update_apart memory byte high]
    exact shown.beyond address high

theorem Machine.In.store (shown : machine.In memory) {address : Word}
    (high : 32 ≤ address.toNat) (byte : Byte) :
    { machine with beyond := Function.update machine.beyond address byte : Machine }.In
      (Function.update memory address byte) where
  registers k used := by
    have first := toNat_low (index k)
    have second := toNat_high (index_small k)
    have small := index_small k
    have apart : low (index k) ≠ address ∧ Sweet16.high (index k) ≠ address := by
      constructor <;>
        · rintro rfl
          omega
    simpa [register, apart] using shown.registers k used
  status := by
    rw [Function.update_of_ne _ _ _, shown.status]
    rintro rfl
    exact absurd high (by decide)
  beyond other far := by
    by_cases same : other = address
    · simp [same]
    · simpa [same] using shown.beyond other far

def Machine.fetched (machine : Machine) : Machine :=
  machine.set 15#4 (machine.registers 15#4 + 1#16)

theorem Machine.In.fetched (shown : machine.In memory) :
    machine.fetched.In (increment memory r15) := by
  change machine.fetched.In
    (setRegister memory (index 15#4) (register memory (index 15#4) + 1#16))
  rw [shown.registers 15#4 (by decide)]
  exact shown.set (by decide) _

@[simp] theorem Machine.fetched_registers (machine : Machine) : machine.fetched.registers =
    Function.update machine.registers 15#4 (machine.registers 15#4 + 1#16) :=
  rfl

@[simp] theorem Machine.fetched_beyond (machine : Machine) :
    machine.fetched.beyond = machine.beyond :=
  rfl

theorem fetched_counter (machine : Machine) :
    machine.fetched.registers 15#4 = machine.registers 15#4 + 1#16 := by
  simp

def Machine.marked (machine : Machine) (n : BitVec 4) : Machine :=
  { machine with status := index n }

@[simp] theorem Machine.marked_registers (machine : Machine) (n : BitVec 4) :
    (machine.marked n).registers = machine.registers :=
  rfl

@[simp] theorem Machine.marked_beyond (machine : Machine) (n : BitVec 4) :
    (machine.marked n).beyond = machine.beyond :=
  rfl

@[simp] theorem Machine.marked_status (machine : Machine) (n : BitVec 4) :
    (machine.marked n).status = index n :=
  rfl

theorem Machine.Next.runs (here : machine.Next own op) (last : op ≠ .rtn)
    (rule : ∀ memory, machine.fetched.In memory →
      ((∀ address ∈ op.places (register memory r15), ¬ own address) → op.Fits own memory) ∧
        next.In (op.effect memory)) :
    machine.Runs own next := by
  intro memory shown
  have fetched := shown.fetched
  have counter : register (increment memory r15) r15 = machine.registers 15#4 + 1#16 :=
    (fetched.registers 15#4 (by decide)).trans (fetched_counter machine)
  have opcode :
      decodeOp (increment memory r15 (register (increment memory r15) r15)) = some op := by
    rw [counter, fetched.beyond _ here.beyond]
    exact here.opcode
  obtain ⟨fits, seen⟩ := rule _ fetched
  refine ⟨1, _, .single ?_ ?_, seen⟩
  · intro other decoded
    cases opcode.symm.trans decoded
    exact fits (counter ▸ here.places)
  · rw [interpret]
    simp only [opcode]

section Rules

theorem index_restored (k : BitVec 4) : index k >>> 1 <<< 1 = index k := by
  revert k
  decide

theorem index_few (k : BitVec 4) : (index k >>> 1).toNat ≤ 15 := by
  revert k
  decide

theorem Machine.Next.operates {operation : RegisterOp}
    (here : machine.Next own (.onRegister operation n))
    (plain : operation ≠ .set ∧ ∀ handler, operation ≠ .indirect handler)
    (effect : ∀ memory, (machine.fetched.marked n).In memory →
      next.In (operate memory (index n) operation)) :
    machine.Runs own next := by
  refine here.runs (by simp) fun memory shown => ⟨fun places => ⟨places, ?_⟩,
    effect _ (shown.status_set (index n))⟩
  cases operation with
  | set => exact absurd rfl plain.1
  | indirect handler => exact absurd rfl (plain.2 handler)
  | _ => exact True.intro

theorem Machine.Next.ld (here : machine.Next own (.onRegister .ld n)) (used : n ≠ 14#4) :
    machine.Runs own ((machine.fetched.marked n).set 0#4 (machine.fetched.registers n)) := by
  refine here.operates (by simp) fun memory shown => ?_
  change Machine.In _ (setRegister memory (index 0#4) (register memory (index n)))
  rw [shown.registers n used]
  exact shown.set (by decide) _

theorem Machine.Next.stdat (here : machine.Next own (.onRegister .stdat n)) (used : n ≠ 14#4) :
    machine.Runs own ((machine.fetched.marked n).set n (machine.fetched.registers n >>> 1)) := by
  refine here.operates (by simp) fun memory shown => ?_
  change Machine.In _ (setRegister memory (index n) (register memory (index n) >>> 1))
  rw [shown.registers n used]
  exact shown.set used _

theorem Machine.Next.dcr (here : machine.Next own (.onRegister .dcr n)) (used : n ≠ 14#4) :
    machine.Runs own ((machine.fetched.marked n).set n (machine.fetched.registers n - 1#16)) := by
  refine here.operates (by simp) fun memory shown => ?_
  change Machine.In _ (setRegister memory (index n) (register memory (index n) - 1#16))
  rw [shown.registers n used]
  exact shown.set used _

theorem Machine.Next.set_constant (here : machine.Next own (.onRegister .set n))
    (used : n ≠ 14#4) (other : n ≠ 15#4) {lowByte highByte : Byte}
    (first : machine.beyond (machine.registers 15#4 + 2#16) = lowByte)
    (second : machine.beyond (machine.registers 15#4 + 3#16) = highByte)
    (inside : (machine.registers 15#4).toNat < 65533) :
    machine.Runs own (((machine.fetched.marked n).set n (highByte ++ lowByte)).set 15#4
      (machine.registers 15#4 + 3#16)) := by
  have opcode := here.beyond
  refine here.runs (by simp) fun memory shown => ?_
  have counter : register memory r15 = machine.registers 15#4 + 1#16 :=
    (shown.registers 15#4 (by decide)).trans (fetched_counter machine)
  have small := index_small n
  refine ⟨fun places => ⟨places, other, ?_⟩, ?_⟩
  · rw [counter]
    intro same
    have := congrArg BitVec.toNat same
    rw [toNat_high small] at this
    bv_omega
  · have marks : (machine.fetched.marked n).In (Sweet16.marked memory n) :=
      shown.status_set (index n)
    have place : register (Sweet16.marked memory n) r15 = machine.registers 15#4 + 1#16 :=
      (marked_counter memory n).trans counter
    have up : machine.registers 15#4 + 1#16 + 1#16 = machine.registers 15#4 + 2#16 ∧
        machine.registers 15#4 + 1#16 + 2#16 = machine.registers 15#4 + 3#16 := by
      constructor <;> bv_omega
    rw [Op.effect, operate]
    simp only [place, up.1, up.2]
    rw [marks.beyond _ (by bv_omega), marks.beyond _ (by bv_omega), ← first, ← second]
    exact (marks.set used _).set (by decide : 15#4 ≠ 14#4) _

theorem Machine.Next.stat (here : machine.Next own (.onRegister (.indirect .stat) n))
    (used : n ≠ 14#4) (high : 32 ≤ (machine.fetched.registers n).toNat)
    (free : ¬ own (machine.fetched.registers n)) :
    machine.Runs own (({ machine.fetched with
      status := 0#8
      beyond := Function.update machine.beyond (machine.fetched.registers n)
        ((machine.fetched.registers 0#4).setWidth 8) } : Machine).set n
      (machine.fetched.registers n + 1#16)) := by
  refine here.runs (by simp) fun memory shown => ?_
  have marks : (machine.fetched.marked n).In (Sweet16.marked memory n) :=
    shown.status_set (index n)
  have pointer : register (Sweet16.marked memory n) (index n) = machine.fetched.registers n :=
    marks.registers n used
  refine ⟨fun places => ⟨places, fun address listed => ?_⟩, ?_⟩
  · obtain rfl := List.mem_singleton.mp listed
    rw [pointer]
    exact free
  · have stored := (marks.store (pointer ▸ high : 32 ≤ (register _ (index n)).toNat)
      (Sweet16.marked memory n r0l)).status_set 0#8
    have low : Sweet16.marked memory n r0l = (machine.fetched.registers 0#4).setWidth 8 := by
      have result := marks.registers 0#4 (by decide)
      rw [show machine.fetched.registers 0#4 = _ from result.symm, register, low_of_append]
      rfl
    have moved := stored.registers n used
    rw [Op.effect, operate, perform, increment]
    rw [low, pointer] at stored moved ⊢
    rw [show register (markResult _) (index n) = _ from moved]
    exact stored.set used _

theorem Machine.Next.bnz {k : BitVec 4} (here : machine.Next own (.branch .bnz))
    (used : k ≠ 14#4) (other : k ≠ 15#4) (result : machine.status = index k)
    (inside : (machine.registers 15#4).toNat < 65534) :
    machine.Runs own (machine.set 15#4 (displaced (machine.registers 15#4 + 2#16)
      (machine.beyond (machine.registers 15#4 + 2#16)) (machine.registers k ≠ 0#16))) := by
  have opcode := here.beyond
  refine here.runs (by simp) fun memory shown => ?_
  have twice := shown.fetched
  have status : increment memory r15 r14h = index k := twice.status.trans result
  have counter : register (increment memory r15) r15 = machine.registers 15#4 + 2#16 := by
    refine (twice.registers 15#4 (by decide)).trans ?_
    rw [fetched_counter, fetched_counter]
    bv_omega
  have tested : resultIndex (increment memory r15) = index k := by
    rw [resultIndex, status, index_restored]
  have value : register (increment memory r15) (index k) = machine.registers k := by
    rw [twice.registers k used]
    simp [Machine.fetched, Machine.set, other]
  have displacement : increment memory r15 (machine.registers 15#4 + 2#16) =
      machine.beyond (machine.registers 15#4 + 2#16) := twice.beyond _ (by bv_omega)
  refine ⟨fun places => ⟨places, ?_, True.intro⟩, ?_⟩
  · rw [status]
    exact index_few k
  · rw [Op.effect]
    simp only [counter, displacement, Branch.condition, tested, value]
    have moved := twice.set (by decide : 15#4 ≠ 14#4) (displaced (machine.registers 15#4 + 2#16)
      (machine.beyond (machine.registers 15#4 + 2#16)) (machine.registers k ≠ 0#16))
    have last : ∀ value, (machine.fetched.fetched.set 15#4 value) = machine.set 15#4 value := by
      simp [Machine.fetched, Machine.set]
    rw [last] at moved
    exact moved

end Rules

structure Machine.Ends (own : Word → Prop) (last : Machine) (memory : Memory) (count : Nat)
    (final : Memory) : Prop where
  ran : rounds count memory = some final
  fits : FitsFor own memory (count + 1)
  ends : decodeOp (increment final r15 (register (increment final r15) r15)) = some .rtn
  seen : last.In final

theorem Machine.Runs.ends {last : Machine} (runs : machine.Runs own last)
    (shown : machine.In memory) (ends : last.Next own .rtn) :
    ∃ count final, last.Ends own memory count final := by
  obtain ⟨count, final, ⟨ran, fits⟩, seen⟩ := runs _ shown
  have fetched := seen.fetched
  have counter : register (increment final r15) r15 = last.registers 15#4 + 1#16 :=
    (fetched.registers 15#4 (by decide)).trans (fetched_counter last)
  have opcode :
      decodeOp (increment final r15 (register (increment final r15) r15)) = some .rtn := by
    rw [counter, fetched.beyond _ ends.beyond]
    exact ends.opcode
  have fit : Fit own final := by
    intro op decoded
    cases opcode.symm.trans decoded
    exact ⟨counter ▸ ends.places, True.intro⟩
  refine ⟨count, final, ran, fun before inside between reached => ?_, opcode, seen⟩
  rcases Nat.lt_succ_iff_lt_or_eq.mp inside with earlier | rfl
  · exact fits before earlier between reached
  · cases ran.symm.trans reached
    exact fit

theorem Machine.Runs.called {cpu : Cpu} {last : Machine}
    (runs : machine.Runs (Owned cpu.s) last) (resident : Fix.Resident cpu.memory)
    (call : Mos6502.decode cpu.memory cpu.pc = some ⟨.jsr, .absolute, Fix.sweet16⟩)
    (shown : machine.In (started cpu)) (ends : last.Next (Owned cpu.s) .rtn) :
    ∃ back, Executes cpu back ∧ Returned cpu (last.registers 15#4 + 2#16) back ∧
      ∀ address, 32 ≤ address.toNat → ¬ Work 6 cpu.s address →
        back.memory address = last.beyond address := by
  obtain ⟨count, final, ran, fits, opcode, seen⟩ := runs.ends shown ends
  obtain ⟨looped, performs, arrived⟩ := call_loops resident call (fits.before count.le_succ) ran
  obtain ⟨back, leaves, returned, same⟩ := call_returns arrived fits ran opcode
  refine ⟨back, performs.trans leaves, ?_, fun address high shown => ?_⟩
  · rw [← seen.registers 15#4 (by decide)]
    exact returned
  · rw [same address shown]
    exact seen.fetched.fetched.beyond address high

end Akiso.Sweet16
