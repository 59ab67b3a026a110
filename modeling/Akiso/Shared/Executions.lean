import Akiso.Shared.Subroutines

set_option autoImplicit false

/-!
# Executions of the 6502

What the processor comes to after some number of steps, whichever program it is in.
-/

namespace Akiso.Mos6502

def Cpu.steps : Nat → Cpu → Option Cpu
  | 0, cpu => some cpu
  | count + 1, cpu => do (← cpu.step).steps count

def Executes (cpu last : Cpu) : Prop :=
  ∃ count, cpu.steps count = some last

structure Arrives (hidden : Word → Prop) (cpu : Cpu) (memory : Memory) (last : Cpu) : Prop where
  executes : Executes cpu last
  s : last.s = cpu.s
  decimal : last.p.decimal = cpu.p.decimal
  same : SameOutside hidden memory last.memory
  back : decode last.memory last.pc = some ⟨.rts, .implied, 0#16⟩

def Instruction.binary (instruction : Instruction) : Bool :=
  match instruction.operation with
  | .bcc | .bcs | .beq | .bmi | .bne | .bpl | .jmp | .jsr | .rts | .plp => false
  | _ => true

variable {image : Image} {memory between : Memory} {cpu middle last : Cpu} {level : Byte}
  {pc : Word} {instruction : Instruction} {instructions : List Instruction} {hidden : Word → Prop}

theorem steps_add (first second : Nat) (cpu : Cpu) :
    cpu.steps (first + second) = (cpu.steps first).bind (Cpu.steps second) := by
  induction first generalizing cpu with
  | zero => simp [Cpu.steps]
  | succ first ih =>
    rw [Nat.add_right_comm]
    simp only [Cpu.steps, Option.bind_eq_bind, ih, Option.bind_assoc]

theorem Executes.refl (cpu : Cpu) : Executes cpu cpu :=
  ⟨0, rfl⟩

theorem Executes.trans (first : Executes cpu middle) (second : Executes middle last) :
    Executes cpu last := by
  obtain ⟨count, ran⟩ := first
  obtain ⟨more, again⟩ := second
  exact ⟨count + more, by simp [steps_add, ran, again]⟩

theorem Executes.step (taken : cpu.step = some middle) : Executes cpu middle :=
  ⟨1, by simp [Cpu.steps, taken]⟩

theorem Executes.execute (here : decode cpu.memory cpu.pc = some instruction)
    (simple : instruction.operation ∉ [.adc, .sbc]) : Executes cpu (cpu.execute instruction) := by
  refine .step ?_
  simp only [List.mem_cons, List.not_mem_nil, or_false, not_or] at simple
  simp [Cpu.step, here, simple]

theorem Advances.executes (advances : Advances level cpu last) : Executes cpu last := by
  induction advances with
  | refl => exact .refl _
  | step taken _ _ ih => exact (Executes.step taken).trans ih

theorem Leads.executes (leads : Leads image level cpu last) : Executes cpu last :=
  leads.advances.executes

theorem Reaches.executes (reaches : Reaches image hidden cpu pc memory last) : Executes cpu last :=
  reaches.leads.executes

theorem Done.arrives (done : Done image hidden cpu memory) :
    ∃ last, Arrives hidden cpu memory last := by
  obtain ⟨last, reaches, back⟩ := done
  exact ⟨last, reaches.executes, reaches.s, reaches.decimal, reaches.same,
    reaches.leads.installed.decode back⟩

theorem Leads.arrives (leads : Leads image level cpu last) (s : last.s = cpu.s)
    (decimal : last.p.decimal = cpu.p.decimal) (same : SameOutside hidden memory last.memory)
    (back : image.Code last.pc [⟨.rts, .implied, 0#16⟩]) : Arrives hidden cpu memory last :=
  ⟨leads.executes, s, decimal, same, leads.installed.decode back⟩

theorem Arrives.after (arrives : Arrives hidden middle between last) (first : Executes cpu middle)
    (s : middle.s = cpu.s) (decimal : middle.p.decimal = cpu.p.decimal)
    (same : SameOutside hidden memory between) : Arrives hidden cpu memory last :=
  ⟨first.trans arrives.executes, arrives.s.trans s, arrives.decimal.trans decimal,
    same.trans arrives.same, arrives.back⟩

theorem Arrives.returns (arrives : Arrives hidden cpu memory last) :
    Executes cpu
      { last with
        pc := (last.memory (stackAddress (cpu.s + 2#8)) ++
          last.memory (stackAddress (cpu.s + 1#8))) + 1#16
        s := cpu.s + 2#8 } := by
  have onward := Executes.execute arrives.back (by simp)
  rw [execute_rts, arrives.s] at onward
  exact arrives.executes.trans onward

theorem Arrives.call {target : Word}
    (arrives : Arrives hidden (cpu.execute ⟨.jsr, .absolute, target⟩) memory last)
    (jump : decode cpu.memory cpu.pc = some ⟨.jsr, .absolute, target⟩)
    (kept : ∀ s, s = cpu.s ∨ s = cpu.s - 1#8 → last.memory (stackAddress s) =
      (cpu.execute ⟨.jsr, .absolute, target⟩).memory (stackAddress s)) :
    Executes cpu { last with pc := cpu.pc + 3#16, s := cpu.s } := by
  have returned := (Executes.execute jump (by simp)).trans arrives.returns
  have high := kept cpu.s (.inl rfl)
  have low := kept (cpu.s - 1#8) (.inr rfl)
  rw [called_high] at high
  rw [called_low] at low
  have level : (cpu.execute ⟨.jsr, .absolute, target⟩).s = cpu.s - 2#8 := rfl
  have first : cpu.s - 2#8 + 2#8 = cpu.s := by bv_omega
  have second : cpu.s - 2#8 + 1#8 = cpu.s - 1#8 := by bv_omega
  have back : cpu.pc + 3#16 - 1#16 + 1#16 = cpu.pc + 3#16 := by bv_omega
  simpa only [level, first, second, high, low, append_halves, back] using returned

theorem pc_binary (binary : instruction.binary = true) :
    (cpu.execute instruction).pc = cpu.pc + BitVec.ofNat 16 instruction.mode.length := by
  cases operation : instruction.operation <;>
    simp_all [Instruction.binary, Cpu.execute, Cpu.past, Cpu.registers, Cpu.shift, Cpu.add]

theorem decimal_binary (binary : instruction.binary = true) (mode : cpu.p.decimal = false) :
    (cpu.execute instruction).p.decimal = false := by
  cases operation : instruction.operation <;>
    simp_all [Instruction.binary, Cpu.execute, Cpu.past, Cpu.registers, Cpu.shift, Cpu.add]

theorem Leads.binary (level : Byte) (instructions : List Instruction)
    (installed : image.Installed cpu.memory) (code : image.Code cpu.pc instructions)
    (straight : instructions.all Instruction.binary = true) (mode : cpu.p.decimal = false)
    (apart : image.Apart instructions cpu) :
    Leads image level cpu (cpu.block instructions) ∧
      (cpu.block instructions).p.decimal = false := by
  induction instructions generalizing cpu with
  | nil => exact ⟨⟨.refl, installed⟩, mode⟩
  | cons instruction rest ih =>
    simp only [List.all_cons, Bool.and_eq_true] at straight
    have inside : instruction.operation ≠ .rts := by
      intro back
      simp [Instruction.binary, back] at straight
    have first := Leads.step level instruction installed code (fun _ => mode)
      (fun back => absurd back inside) apart.1
    obtain ⟨onward, kept⟩ := ih first.installed (pc_binary straight.1 ▸ code.2.2) straight.2
      (decimal_binary straight.1 mode) apart.2
    exact ⟨first.trans onward, kept⟩

end Akiso.Mos6502
