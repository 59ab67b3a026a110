import Akiso.Asm.Indirect

set_option autoImplicit false

namespace Akiso.Sweet16

open Mos6502

variable {image : Image} {cpu : Cpu} {hidden : Word → Prop}

@[simp] theorem address_low (cpu : Cpu) (operation : Operation) :
    cpu.address ⟨operation, .zeroPageX, r0l⟩ = low cpu.x := by
  simp [Cpu.address, r0l, low]

@[simp] theorem address_high (cpu : Cpu) (operation : Operation) :
    cpu.address ⟨operation, .zeroPageX, r0h⟩ = high cpu.x := by
  simp [Cpu.address, r0h, high, BitVec.add_comm]

@[simp] theorem address_indirectX (cpu : Cpu) (operation : Operation) :
    cpu.address ⟨operation, .indirectX, r0l⟩ = register cpu.memory cpu.x := by
  simp [Cpu.address, r0l, pointerAt, register, high, low]

theorem clear_low (clear : image.Clear) (x : Byte) : image (low x) = none :=
  clear.zeroPage x

theorem clear_high (clear : image.Clear) (x : Byte) : image (high x) = none :=
  clear.zeroPage (x + 1#8)

def dcrCode (dcr : Word) : List Instruction :=
  [⟨.lda, .zeroPageX, r0l⟩, ⟨.bne, .relative, dcr + 6#16⟩, ⟨.dec, .zeroPageX, r0h⟩,
    ⟨.dec, .zeroPageX, r0l⟩, ⟨.rts, .implied, 0#16⟩]

theorem dcr_body (level : Byte) (clear : image.Clear) (installed : image.Installed cpu.memory)
    (code : image.Code cpu.pc (dcrCode cpu.pc)) :
    ∃ last, Leads image level cpu last ∧ last.pc = cpu.pc + 8#16 ∧ last.s = cpu.s ∧
      last.x = cpu.x ∧ last.y = cpu.y ∧ last.p.decimal = cpu.p.decimal ∧
      last.memory = decrement cpu.memory cpu.x := by
  obtain ⟨-, -, branch⟩ := id code
  obtain ⟨-, -, borrowing⟩ := id branch
  obtain ⟨first, second, plain⟩ := id borrowing
  have load := Leads.execute level _ installed code (by simp) (by simp [Cpu.writes])
  have test := load.trans (.execute level _ load.installed branch (by simp) (by simp [Cpu.writes]))
  rw [decrement_eq]
  by_cases borrow : cpu.memory (low cpu.x) = 0#8
  next =>
    have down := test.trans (.block level [⟨.dec, .zeroPageX, r0h⟩, ⟨.dec, .zeroPageX, r0l⟩]
      test.installed
      (by simpa [borrow] using ⟨first, second, plain.1, plain.2.1, True.intro⟩)
      (by decide)
      (by simp [Image.Apart, Cpu.writes, clear_low clear, clear_high clear]))
    refine ⟨_, down, ?_, by simp, by simp, by simp, by simp, ?_⟩
    · simp [borrow, BitVec.add_assoc]
    · simp [borrow, low_ne_high]
  next =>
    have down := test.trans (.execute level ⟨.dec, .zeroPageX, r0l⟩ test.installed
      (by simpa [borrow, BitVec.add_assoc] using plain) (by simp)
      (by simp [Cpu.writes, Cpu.past, clear_low clear]))
    refine ⟨_, down, ?_, by simp, by simp, by simp, by simp, ?_⟩
    · simp [borrow, BitVec.add_assoc]
    · simp [borrow]

theorem stack_ne_register (s x : Byte) : stackAddress s ≠ low x ∧ stackAddress s ≠ high x := by
  have beyond : 256 ≤ (stackAddress s).toNat := (stackPage_stackAddress s).1
  have page (place : Byte) : (place.setWidth 16).toNat < 256 := by
    have := place.isLt
    simp only [BitVec.toNat_setWidth]
    omega
  constructor <;> intro same
  · have := page x
    rw [same, low] at beyond
    omega
  · have := page (x + 1#8)
    rw [same, high] at beyond
    omega

theorem shows_stackPage : Shows StackPage := by
  rintro address register ⟨beyond, -⟩
  omega

theorem dcr_call {dcr : Word} (clear : image.Clear) (installed : image.Installed cpu.memory)
    (shows : Shows hidden) (covers : Covers hidden cpu.s 2) (small : cpu.x.toNat ≤ 30)
    (call : image.Code cpu.pc [⟨.jsr, .absolute, dcr⟩]) (code : image.Code dcr (dcrCode dcr)) :
    ∃ last, Reaches image hidden cpu (cpu.pc + 3#16) (decrement cpu.memory cpu.x) last ∧
      last.y = cpu.y := by
  have jump := Leads.execute cpu.s _ installed call (by simp)
    (by simp [Cpu.writes, Cpu.past, clear.stack])
  obtain ⟨last, body, pc, s, x, y, decimal, memory⟩ := dcr_body cpu.s clear jump.installed code
  have back : image.Code last.pc [⟨.rts, .implied, 0#16⟩] := by
    rw [pc]
    simpa [BitVec.add_assoc] using code.2.2.2.2.2.2.2.2
  have returned := body.call jump back (by simpa using s) rfl fun place _ => by
    obtain ⟨notLow, notHigh⟩ := stack_ne_register place cpu.x
    rw [memory]
    exact setRegister_of_ne _ _ notLow notHigh
  refine ⟨_, ⟨returned, rfl, rfl, by simpa using x, by simpa using decimal, ?_⟩, by simpa using y⟩
  dsimp only
  rw [memory]
  exact decrement_congr shows small (same_of_jsr cpu dcr covers)

def Scratch (address : Word) : Prop :=
  address = r16l ∨ address = r16h ∨ StackPage address

instance (address : Word) : Decidable (Scratch address) :=
  inferInstanceAs (Decidable (_ ∨ _ ∨ _))

theorem stack_ne_scratch (s : Byte) : stackAddress s ≠ r16l ∧ stackAddress s ≠ r16h := by
  have page := (stackPage_stackAddress s).1
  constructor <;> intro same <;> rw [same] at page <;> exact absurd page (by decide)

theorem shows_scratch : Shows Scratch := by
  rintro address register (rfl | rfl | page)
  · exact absurd register (by decide)
  · exact absurd register (by decide)
  · exact shows_stackPage address register page

structure Workspace (hidden : Word → Prop) (s : Byte) : Prop where
  shows : Shows hidden
  low : hidden r16l
  high : hidden r16h
  stack : Covers hidden s 4

theorem workspace_scratch (s : Byte) : Workspace Scratch s where
  shows := shows_scratch
  low := .inl rfl
  high := .inr (.inl rfl)
  stack := fun _ _ => .inr (.inr (stackPage_stackAddress _))

def indregCode : List Instruction :=
  [⟨.pha, .implied, 0#16⟩, ⟨.php, .implied, 0#16⟩, ⟨.lda, .zeroPageX, r0l⟩,
    ⟨.sta, .zeroPage, r16l⟩, ⟨.lda, .zeroPageX, r0h⟩, ⟨.sta, .zeroPage, r16h⟩,
    ⟨.plp, .implied, 0#16⟩, ⟨.pla, .implied, 0#16⟩]

-- INDREG up to its RTS: the pointer is copied, and A survives on the stack.
theorem indreg_body (level : Byte) (clear : image.Clear) (installed : image.Installed cpu.memory)
    (small : cpu.x.toNat ≤ 30) (code : image.Code cpu.pc indregCode) :
    ∃ last, Leads image level cpu last ∧ last.pc = cpu.pc + 12#16 ∧ last.s = cpu.s ∧
      last.x = cpu.x ∧ last.y = cpu.y ∧ last.a = cpu.a ∧ last.p.decimal = cpu.p.decimal ∧
      pointerAt last.memory 0x20#8 = register cpu.memory cpu.x ∧
      SameOutside (fun address => address = r16l ∨ address = r16h ∨
        address = stackAddress cpu.s ∨ address = stackAddress (cpu.s - 1#8))
        cpu.memory last.memory := by
  have scratch : image r16l = none ∧ image r16h = none :=
    ⟨clear _ (by decide), clear _ (by decide)⟩
  have run := Leads.block level indregCode installed code (by decide)
    (by simp [indregCode, Image.Apart, Cpu.writes, Cpu.past, clear.stack, scratch])
  have pushed (s : Byte) : low cpu.x ≠ stackAddress s ∧ high cpu.x ≠ stackAddress s :=
    ⟨(stack_ne_register s cpu.x).1.symm, (stack_ne_register s cpu.x).2.symm⟩
  have copied : high cpu.x ≠ r16l := by
    intro same
    have := toNat_high small
    rw [same] at this
    simp [r16l] at this
    omega
  have memory : (cpu.block indregCode).memory =
      Function.update (Function.update (Function.update
        (Function.update cpu.memory (stackAddress cpu.s) cpu.a)
        (stackAddress (cpu.s - 1#8)) cpu.p.toByte) r16l (cpu.memory (low cpu.x))) r16h
        (cpu.memory (high cpu.x)) := by
    simp [indregCode, pushed, copied]
  refine ⟨_, run, by simp [indregCode, BitVec.add_assoc], by simp [indregCode],
    by simp [indregCode], by simp [indregCode], ?_, ?_, ?_, ?_⟩
  · have pulled : (cpu.block indregCode).a =
        (cpu.block indregCode).memory (stackAddress cpu.s) := by
      simp [indregCode]
    have apart : stackAddress cpu.s ≠ stackAddress (cpu.s - 1#8) := fun same => by
      have := stackAddress_inj same
      bv_omega
    simp [pulled, memory, apart, stack_ne_scratch]
  · have pulled : cpu.s - 1#8 - 1#8 + 1#8 = cpu.s - 1#8 := by bv_omega
    simp [indregCode, stack_ne_scratch, pulled]
  · have halves : r16l ≠ r16h := by decide
    have second : (0x20#8 + 1#8).setWidth 16 = r16h := by decide
    have first : (0x20#8).setWidth 16 = r16l := by decide
    simp only [memory, pointerAt, second, first, Function.update_self, Function.update_of_ne halves,
      register]
  · rw [memory]
    exact ((((SameOutside.refl _ _).update_hidden (by simp) _).update_hidden (by simp)
      _).update_hidden (by simp) _).update_hidden (by simp) _

theorem indreg_call {indreg : Word} (clear : image.Clear) (installed : image.Installed cpu.memory)
    (workspace : Workspace hidden cpu.s) (small : cpu.x.toNat ≤ 30)
    (call : image.Code cpu.pc [⟨.jsr, .absolute, indreg⟩]) (code : image.Code indreg indregCode)
    (back : image.Code (indreg + 12#16) [⟨.rts, .implied, 0#16⟩]) :
    ∃ last, Reaches image hidden cpu (cpu.pc + 3#16) cpu.memory last ∧ last.a = cpu.a ∧
      last.y = cpu.y ∧ pointerAt last.memory 0x20#8 = register cpu.memory cpu.x := by
  have jump := Leads.execute cpu.s _ installed call (by simp)
    (by simp [Cpu.writes, Cpu.past, clear.stack])
  obtain ⟨last, body, pc, s, x, y, a, decimal, pointer, same⟩ :=
    indreg_body cpu.s clear jump.installed small code
  have pushed := same_of_jsr cpu indreg (workspace.stack.take (by omega))
  have deeper : Covers hidden (cpu.s - 2#8) 2 := workspace.stack.below (by omega)
  have returned := body.call jump (pc ▸ back) (by simpa using s) rfl fun place level => by
    refine same (stackAddress place) ?_
    have deep : place ≠ cpu.s - 2#8 ∧ place ≠ cpu.s - 2#8 - 1#8 := by
      rcases level with rfl | rfl <;> constructor <;> bv_omega
    obtain ⟨notLow, notHigh⟩ := stack_ne_scratch place
    simpa [notLow, notHigh] using
      ⟨fun same => deep.1 (stackAddress_inj same), fun same => deep.2 (stackAddress_inj same)⟩
  refine ⟨_, ⟨returned, rfl, rfl, by simpa using x, by simpa using decimal, ?_⟩,
    by simpa using a, by simpa using y, ?_⟩
  · refine pushed.trans (same.mono fun address written => ?_)
    rcases written with rfl | rfl | rfl | rfl
    · exact workspace.low
    · exact workspace.high
    · exact deeper.first
    · exact deeper 1 (by omega)
  · rw [pointer]
    exact register_congr workspace.shows small pushed

def stat3Code (stat3 : Word) : List Instruction :=
  [⟨.sty, .zeroPage, r14h⟩, ⟨.inc, .zeroPageX, r0l⟩, ⟨.bne, .relative, stat3 + 8#16⟩,
    ⟨.inc, .zeroPageX, r0h⟩, ⟨.rts, .implied, 0#16⟩]

theorem stat3_done (clear : image.Clear) (installed : image.Installed cpu.memory)
    (code : image.Code cpu.pc (stat3Code cpu.pc)) (zero : cpu.y = 0#8) (hidden : Word → Prop) :
    Done image hidden cpu (increment (markResult cpu.memory) cpu.x) := by
  obtain ⟨first, second, third, fourth, branch⟩ := id code
  obtain ⟨-, -, carrying⟩ := id branch
  obtain ⟨-, -, back⟩ := id carrying
  have mark := Leads.block cpu.s [⟨.sty, .zeroPage, r14h⟩, ⟨.inc, .zeroPageX, r0l⟩] installed
    ⟨first, second, third, fourth, True.intro⟩ (by decide)
    (by simp [Image.Apart, Cpu.writes, Cpu.past, clear_low clear, clear r14h (by decide)])
  have test := mark.trans (.execute cpu.s _ mark.installed branch (by simp) (by simp [Cpu.writes]))
  rw [increment_eq, markResult]
  by_cases carry : Function.update cpu.memory r14h 0#8 (low cpu.x) + 1#8 = 0#8
  next =>
    have up := test.trans (.execute cpu.s ⟨.inc, .zeroPageX, r0h⟩ test.installed
      (by simpa [zero, carry] using carrying) (by simp)
      (by simp [Cpu.writes, Cpu.past, clear_high clear]))
    refine ⟨_, ⟨up, rfl, by simp, by simp, by simp, ?_⟩, by simpa [zero, carry] using back⟩
    simpa [zero, carry, (low_ne_high cpu.x).symm] using SameOutside.refl hidden _
  next =>
    refine ⟨_, ⟨test, rfl, by simp, by simp, by simp, ?_⟩, ?_⟩
    · simpa [zero, carry] using SameOutside.refl hidden _
    · simpa [zero, carry, BitVec.add_assoc] using back

def pop3Code : List Instruction :=
  [⟨.ldy, .immediate, 0#16⟩, ⟨.sty, .zeroPage, r14h⟩, ⟨.rts, .implied, 0#16⟩]

theorem pop3_done (clear : image.Clear) (installed : image.Installed cpu.memory)
    (code : image.Code cpu.pc pop3Code) (hidden : Word → Prop) :
    Done image hidden cpu (markResult cpu.memory) := by
  obtain ⟨first, second, third, fourth, back⟩ := id code
  have mark := Leads.block cpu.s [⟨.ldy, .immediate, 0#16⟩, ⟨.sty, .zeroPage, r14h⟩] installed
    ⟨first, second, third, fourth, True.intro⟩ (by decide)
    (by simp [Image.Apart, Cpu.writes, Cpu.past, clear r14h (by decide)])
  exact ⟨_, mark.reaches rfl rfl rfl hidden, back⟩

end Akiso.Sweet16
