import Akiso.Asm.Rounds

set_option autoImplicit false

namespace Akiso.Sweet16

open Mos6502 Sweet16.Fix

def SavedCell (address : Word) : Prop :=
  address = acc ∨ address = xreg ∨ address = yreg ∨ address = statusCell

instance (address : Word) : Decidable (SavedCell address) :=
  inferInstanceAs (Decidable (_ ∨ _ ∨ _ ∨ _))

-- What belongs to the interpreter from its call at this level of the stack to its return.
def Owned (level : Byte) (address : Word) : Prop :=
  Work 6 level address ∨ CodeCell address ∨ SavedCell address

instance (level : Byte) (address : Word) : Decidable (Owned level address) :=
  inferInstanceAs (Decidable (_ ∨ _ ∨ _))

structure AtLoop (level : Byte) (memory : Memory) (cpu : Cpu) : Prop where
  entered : cpu.pc = sw16b
  s : cpu.s = level
  binary : cpu.p.decimal = false
  resident : Resident cpu.memory
  same : SameOutside (Work 6 level) memory cpu.memory

variable {level : Byte} {memory next : Memory} {cpu : Cpu}

theorem work_within {depth less : Nat} {s : Byte} {first : Nat} {address : Word}
    (work : Work less (s - BitVec.ofNat 8 first) address) (within : first + less ≤ depth) :
    Work depth s address := by
  rcases work with low | high | ⟨pushed, inside, rfl⟩
  · exact .inl low
  · exact .inr (.inl high)
  · refine .inr (.inr ⟨first + pushed, by omega, ?_⟩)
    rw [BitVec.ofNat_add, BitVec.sub_sub]

theorem round_work {address : Word} (work : Work 4 (level - 2#8) address) : Work 6 level address :=
  work_within work (by omega)

theorem covers_work {depth : Nat} (s : Byte) : Covers (Work depth s) s depth :=
  fun pushed inside => .inr (.inr ⟨pushed, inside, rfl⟩)

theorem not_work_pushed {s other : Byte} (above : ∀ pushed < 4, other ≠ s - BitVec.ofNat 8 pushed) :
    ¬ Work 4 s (stackAddress other) := by
  obtain ⟨notLow, notHigh⟩ := stack_ne_scratch other
  rintro (same | same | ⟨pushed, inside, same⟩)
  · exact notLow same
  · exact notHigh same
  · exact above pushed inside (stackAddress_inj same)

theorem sw16b_code : restImage.Code sw16b [⟨.jsr, .absolute, sw16c⟩, ⟨.jmp, .absolute, sw16b⟩] :=
  rest_code (by decide)

theorem stackAddress_beyond (s : Byte) : 32 ≤ (stackAddress s).toNat := by
  rw [toNat_stackAddress]
  omega

theorem loop_step (start : AtLoop level memory cpu) (fit : Fit (Owned level) memory)
    (interpreted : interpret memory = some next) :
    ∃ last, Executes cpu last ∧ AtLoop level next last := by
  obtain ⟨entered, rfl, binary, resident, apart⟩ := start
  have shows := shows_work 6 cpu.s
  have works : ∀ address, Work 6 cpu.s address → Owned cpu.s address := fun _ work => .inl work
  have jump := resident.rest.decode (entered ▸ sw16b_code)
  have pushes := same_of_jsr cpu sw16c ((covers_work cpu.s).take (by omega : 2 ≤ 6))
  have same := apart.trans pushes
  obtain ⟨op, decoded, -, -⟩ := interpret_some interpreted
  have fits := fit_congr shows same works (not_work_cellFF _ _) decoded fit
  obtain ⟨again, ran, kept⟩ := interpret_congr shows same works fit interpreted
  obtain ⟨last, arrives, still⟩ := round_arrives (resident.same pushes) rfl binary
    (fun _ work => .inl (round_work work)) (fun _ code => .inr (.inl code)) fits ran
  have called := arrives.call jump fun s here => by
    have above : ∀ pushed < 4, s ≠ cpu.s - 2#8 - BitVec.ofNat 8 pushed := by
      rcases here with rfl | rfl <;> intro pushed inside <;> bv_omega
    have pushed : Work 6 cpu.s (stackAddress s) := by
      rcases here with rfl | rfl
      · exact (covers_work cpu.s).first
      · exact covers_work cpu.s 1 (by omega : 1 < 6)
    rw [arrives.same _ (not_work_pushed above),
      interpret_owned fits ran (stackAddress_beyond s) (.inl pushed)]
  have behind : restImage.Code (sw16b + 3#16) [⟨.jmp, .absolute, sw16b⟩] := sw16b_code.drop 1
  have onward : decode last.memory (cpu.pc + 3#16) = some ⟨.jmp, .absolute, sw16b⟩ := by
    rw [entered]
    exact still.rest.decode behind
  have back := called.trans (.execute onward (by simp))
  rw [execute_jmp] at back
  exact ⟨_, back, rfl, rfl, arrives.decimal.trans binary, still,
    kept.trans (arrives.same.mono fun _ work => round_work work)⟩

def FitsFor (own : Word → Prop) (memory : Memory) (count : Nat) : Prop :=
  ∀ before < count, ∀ between, rounds before memory = some between → Fit own between

theorem FitsFor.after {own : Word → Prop} {count : Nat} (fits : FitsFor own memory (count + 1))
    (interpreted : interpret memory = some next) : FitsFor own next count := by
  intro before inside between reached
  refine fits (before + 1) (by omega) between ?_
  rw [rounds, interpreted]
  exact reached

theorem FitsFor.before {own : Word → Prop} {fewer count : Nat} (fits : FitsFor own memory count)
    (within : fewer ≤ count) : FitsFor own memory fewer :=
  fun before inside => fits before (by omega)

theorem loop_performs (count : Nat) (level : Byte) (memory final : Memory) (cpu : Cpu)
    (start : AtLoop level memory cpu) (fits : FitsFor (Owned level) memory count)
    (ran : rounds count memory = some final) :
    ∃ last, Executes cpu last ∧ AtLoop level final last := by
  induction count generalizing memory cpu with
  | zero =>
    cases ran
    exact ⟨cpu, .refl cpu, start⟩
  | succ count ih =>
    obtain ⟨next, interpreted, onward⟩ := Option.bind_eq_some_iff.mp ran
    obtain ⟨middle, first, arrived⟩ :=
      loop_step start (fits 0 (by omega) memory rfl) interpreted
    obtain ⟨last, rest, finished⟩ := ih next middle arrived (fits.after interpreted) onward
    exact ⟨last, first.trans rest, finished⟩

theorem saved_beyond {address : Word} (cell : SavedCell address) : 0xC000 ≤ address.toNat := by
  rcases cell with rfl | rfl | rfl | rfl <;> decide

theorem not_owned {address : Word} (first : 512 ≤ address.toNat) (last : address.toNat < 0xA689) :
    ¬ Owned level address := by
  rintro (work | code | cell)
  · rcases work_scratch work with rfl | rfl | page
    · exact absurd first (by decide)
    · exact absurd first (by decide)
    · have := page.2
      omega
  · have := codeCell_high code
    omega
  · have := saved_beyond cell
    omega

section Entry

def saved (cpu : Cpu) : Memory :=
  Function.update (Function.update (Function.update (Function.update cpu.memory acc cpu.a) xreg
    cpu.x) yreg cpu.y) statusCell cpu.p.toByte

theorem saved_free : ∀ address, SavedCell address → ¬ CodeCell address := by
  rintro address (rfl | rfl | rfl | rfl) <;> decide

theorem rest_of_saved {address : Word} (cell : SavedCell address) : restImage address = none :=
  Option.not_isSome_iff_eq_none.mp fun here => saved_free address cell (.inr (.inr here))

def saveCode : List Instruction :=
  [⟨.sta, .absolute, acc⟩, ⟨.stx, .absolute, xreg⟩, ⟨.sty, .absolute, yreg⟩, ⟨.php, .implied, 0⟩,
    ⟨.pla, .implied, 0⟩, ⟨.sta, .absolute, statusCell⟩, ⟨.cld, .implied, 0⟩]

theorem address_absolute (cpu : Cpu) (operation : Operation) (operand : Word) :
    cpu.address ⟨operation, .absolute, operand⟩ = operand :=
  rfl

theorem save_leads (level : Byte) (installed : restImage.Installed cpu.memory)
    (entered : cpu.pc = save) :
    ∃ last, Leads restImage level cpu last ∧ last.pc = save + 15#16 ∧ last.s = cpu.s ∧
      last.p.decimal = false ∧
      SameOutside (fun address => address = stackAddress cpu.s) (saved cpu) last.memory := by
  have code : restImage.Code save (saveCode ++ [⟨.rts, .implied, 0⟩]) := rest_code (by decide)
  have free : restImage acc = none ∧ restImage xreg = none ∧ restImage yreg = none ∧
      restImage statusCell = none :=
    ⟨rest_of_saved (by decide), rest_of_saved (by decide), rest_of_saved (by decide),
      rest_of_saved (by decide)⟩
  have moved := Leads.block level saveCode installed (entered ▸ code.take 7) (by decide)
    (by simp [saveCode, Image.Apart, Cpu.writes, Cpu.past, rest_clear.stack, address_absolute,
      free])
  refine ⟨_, moved, ?_, ?_, ?_, ?_⟩
  · simp [saveCode, entered, BitVec.add_assoc]
  · simp [saveCode]
  · simp [saveCode]
  · have pushed := ((SameOutside.refl (fun address => address = stackAddress cpu.s)
      (Function.update (Function.update (Function.update cpu.memory acc cpu.a) xreg cpu.x) yreg
        cpu.y)).update_hidden rfl cpu.p.toByte).update statusCell cpu.p.toByte
    simpa [saveCode, address_absolute, saved] using pushed

theorem saved_ne_stack {address : Word} (cell : SavedCell address) (s : Byte) :
    address ≠ stackAddress s := by
  rintro rfl
  have low := (stackPage_stackAddress s).2
  have high := saved_beyond cell
  omega

theorem saved_stack (cpu : Cpu) (s : Byte) :
    saved cpu (stackAddress s) = cpu.memory (stackAddress s) := by
  have apart (address : Word) (cell : SavedCell address) : stackAddress s ≠ address :=
    (saved_ne_stack cell s).symm
  simp [saved, apart acc (by decide), apart xreg (by decide), apart yreg (by decide),
    apart statusCell (by decide)]

-- What the program finds, with the last byte of the call in R15.
def started (cpu : Cpu) : Memory :=
  setRegister (saved cpu) r15 (cpu.pc + 2#16)

def enterCode : List Instruction :=
  [⟨.pla, .implied, 0⟩, ⟨.sta, .zeroPage, r15l⟩, ⟨.pla, .implied, 0⟩, ⟨.sta, .zeroPage, r15h⟩]

theorem saved_congr {hidden : Word → Prop} {other : Memory}
    (same : SameOutside hidden cpu.memory other) (s : Byte) (pc : Word) :
    SameOutside hidden (saved cpu) (saved { cpu with s, pc, memory := other }) :=
  (((same.update _ _).update _ _).update _ _).update _ _

theorem sweet16_leads {hidden : Word → Prop} (installed : restImage.Installed cpu.memory)
    (entered : cpu.pc = sweet16) (covers : Covers hidden cpu.s 3) :
    ∃ last, Leads restImage cpu.s cpu last ∧ last.pc = sw16b ∧ last.s = cpu.s + 2#8 ∧
      last.p.decimal = false ∧ SameOutside hidden (setRegister (saved cpu) r15
        (cpu.memory (stackAddress (cpu.s + 2#8)) ++ cpu.memory (stackAddress (cpu.s + 1#8))))
        last.memory := by
  have code : restImage.Code sweet16 (⟨.jsr, .absolute, save⟩ :: enterCode) :=
    rest_code (by decide)
  have entering : restImage.Code (sweet16 + 3#16) enterCode := code.drop 1
  have behind : restImage.Code (save + 15#16) [⟨.rts, .implied, 0⟩] :=
    (rest_code (by decide) : restImage.Code save (saveCode ++ [⟨.rts, .implied, 0⟩])).drop 7
  have pushes := same_of_jsr cpu save (covers.take (by omega))
  have jump := Leads.execute cpu.s ⟨.jsr, .absolute, save⟩ installed (entered ▸ code.take 1)
    (by simp) (by simp [Cpu.writes, Cpu.past, rest_clear.stack])
  obtain ⟨back, body, pc, s, decimal, same⟩ := save_leads cpu.s jump.installed rfl
  have third : hidden (stackAddress (cpu.s - 2#8)) := covers 2 (by omega)
  have written := (saved_congr pushes (cpu.s - 2#8) save).trans
    (same.mono fun address here => here ▸ third)
  have stacked (other : Byte) (apart : other ≠ cpu.s - 2#8) : back.memory (stackAddress other) =
      (cpu.execute ⟨.jsr, .absolute, save⟩).memory (stackAddress other) := by
    rw [same _ fun here => apart (stackAddress_inj here), saved_stack]
  have returned := body.call jump (pc ▸ behind) s rfl fun other here =>
    stacked other (by rcases here with rfl | rfl <;> bv_omega)
  have first : back.memory (stackAddress (cpu.s + 1#8)) =
      cpu.memory (stackAddress (cpu.s + 1#8)) := by
    rw [stacked _ (by bv_omega), jsr_stack cpu save (by bv_omega) (by bv_omega)]
  have second : back.memory (stackAddress (cpu.s + 2#8)) =
      cpu.memory (stackAddress (cpu.s + 2#8)) := by
    rw [stacked _ (by bv_omega), jsr_stack cpu save (by bv_omega) (by bv_omega)]
  have moved := returned.trans (.block cpu.s enterCode returned.installed
    (by simpa only [entered] using entering) (by decide)
    (by simp [enterCode, Image.Apart, Cpu.writes, Cpu.past, rest_free]))
  have up : cpu.s + 1#8 + 1#8 = cpu.s + 2#8 := by bv_omega
  have apart : stackAddress (cpu.s + 2#8) ≠ r15l := (stack_ne_register _ r15).1
  have arrives : sweet16 + 9#16 = sw16b := by decide
  refine ⟨_, moved, ?_, ?_, ?_, ?_⟩
  · simp [enterCode, entered, BitVec.add_assoc, arrives]
  · simp [enterCode, up]
  · simpa [enterCode] using decimal
  · rw [setRegister_append, low_r15, high_r15]
    simpa [enterCode, up, first, second, apart] using (written.update r15l _).update r15h _

theorem started_apart (cpu : Cpu) {address : Word} (high : 32 ≤ address.toNat)
    (free : ¬ SavedCell address) : started cpu address = cpu.memory address := by
  have apart (place : Word) (cell : SavedCell place) : address ≠ place := by
    rintro rfl
    exact free cell
  rw [started, setRegister_apart _ (by decide) _ high]
  simp [saved, apart acc (by decide), apart xreg (by decide), apart yreg (by decide),
    apart statusCell (by decide)]

theorem started_resident (resident : Resident cpu.memory) : Resident (started cpu) :=
  resident.congr fun address code =>
    started_apart cpu (by have := codeCell_beyond code; omega)
      fun cell => saved_free address cell code

theorem call_enters (resident : Resident cpu.memory)
    (call : decode cpu.memory cpu.pc = some ⟨.jsr, .absolute, sweet16⟩) :
    ∃ loop, Executes cpu loop ∧ AtLoop cpu.s (started cpu) loop := by
  have covers : Covers (Work 6 cpu.s) cpu.s 6 := covers_work cpu.s
  have pushes := same_of_jsr cpu sweet16 (covers.take (by omega))
  have still := resident.same pushes
  have deeper : Covers (Work 6 cpu.s) (cpu.s - 2#8) 3 := covers.below (by omega)
  obtain ⟨loop, leads, pc, s, decimal, same⟩ := sweet16_leads still.rest rfl deeper
  have here : (cpu.execute ⟨.jsr, .absolute, sweet16⟩).s = cpu.s - 2#8 := rfl
  have up : cpu.s - 2#8 + 2#8 = cpu.s ∧ cpu.s - 2#8 + 1#8 = cpu.s - 1#8 := by
    constructor <;> bv_omega
  have last : cpu.pc + 3#16 - 1#16 = cpu.pc + 2#16 := by bv_omega
  rw [here, up.1, up.2, called_high, called_low, last, append_halves] at same
  rw [here, up.1] at s
  have program : SameOutside (Work 6 cpu.s) (started cpu) loop.memory :=
    (setRegister_congr (saved_congr pushes _ _) _).trans same
  exact ⟨loop, (Executes.execute call (by simp)).trans leads.executes, pc, s, decimal,
    (started_resident resident).same program, program⟩

end Entry

section Return

def restored (memory : Memory) (cpu : Cpu) : Cpu :=
  { cpu with
    a := memory acc
    x := memory xreg
    y := memory yreg
    p := Flags.ofByte (memory statusCell) }

def restoreCode : List Instruction :=
  [⟨.lda, .absolute, statusCell⟩, ⟨.pha, .implied, 0⟩, ⟨.lda, .absolute, acc⟩,
    ⟨.ldx, .absolute, xreg⟩, ⟨.ldy, .absolute, yreg⟩, ⟨.plp, .implied, 0⟩]

theorem value_absolute (cpu : Cpu) (operation : Operation) (operand : Word) :
    cpu.value ⟨operation, .absolute, operand⟩ = cpu.memory operand :=
  rfl

theorem restore_leads (level : Byte) (installed : restImage.Installed cpu.memory)
    (entered : cpu.pc = restore) :
    Leads restImage level cpu (restored cpu.memory
      { cpu with
        pc := restore + 14#16
        memory := Function.update cpu.memory (stackAddress cpu.s) (cpu.memory statusCell) }) := by
  have code : restImage.Code restore (restoreCode ++ [⟨.rts, .implied, 0⟩]) :=
    rest_code (by decide)
  have moved := Leads.block level restoreCode installed (entered ▸ code.take 6) (by decide)
    (by simp [restoreCode, Image.Apart, Cpu.writes, Cpu.past, rest_clear.stack])
  have first := saved_ne_stack (by decide : SavedCell acc) cpu.s
  have second := saved_ne_stack (by decide : SavedCell xreg) cpu.s
  have third := saved_ne_stack (by decide : SavedCell yreg) cpu.s
  have taken : cpu.block restoreCode = restored cpu.memory
      { cpu with
        pc := restore + 14#16
        memory := Function.update cpu.memory (stackAddress cpu.s) (cpu.memory statusCell) } := by
    simp [restoreCode, restored, value_absolute, first, second, third, entered,
      BitVec.add_assoc]
  exact taken ▸ moved

theorem address_jump (cpu : Cpu) : cpu.address ⟨.jmp, .indirect, r15l⟩ = register cpu.memory r15 :=
  rfl

-- RTNZ, where the return address of the round has been dropped.
theorem rtnz_leads (installed : restImage.Installed cpu.memory) (entered : cpu.pc = rtnz + 2#16) :
    ∃ last, Leads restImage cpu.s cpu (restored cpu.memory last) ∧
      last.pc = register cpu.memory r15 ∧ last.s = cpu.s ∧
      ∀ hidden, Covers hidden cpu.s 3 → SameOutside hidden cpu.memory last.memory := by
  have code : restImage.Code rtnz [⟨.pla, .implied, 0⟩, ⟨.pla, .implied, 0⟩,
      ⟨.jsr, .absolute, restore⟩, ⟨.jmp, .indirect, r15l⟩] := rest_code (by decide)
  have call : restImage.Code (rtnz + 2#16) [⟨.jsr, .absolute, restore⟩] := (code.drop 2).take 1
  have leave : restImage.Code (rtnz + 5#16) [⟨.jmp, .indirect, r15l⟩] := code.drop 3
  have behind : restImage.Code (restore + 14#16) [⟨.rts, .implied, 0⟩] :=
    (rest_code (by decide) : restImage.Code restore (restoreCode ++ [⟨.rts, .implied, 0⟩])).drop 6
  have arrives : rtnz + 2#16 + 3#16 = rtnz + 5#16 := by decide
  have jump := Leads.execute cpu.s ⟨.jsr, .absolute, restore⟩ installed (entered ▸ call) (by simp)
    (by simp [Cpu.writes, Cpu.past, rest_clear.stack])
  have body := restore_leads cpu.s jump.installed rfl
  have deep : ∀ s, s = cpu.s ∨ s = cpu.s - 1#8 → stackAddress s ≠ stackAddress (cpu.s - 2#8) := by
    intro s here same
    have := stackAddress_inj same
    rcases here with rfl | rfl <;> bv_omega
  have returned := body.call jump behind rfl rfl fun s here =>
    Function.update_of_ne (deep s here) _ _
  have jumped := returned.trans (.execute cpu.s ⟨.jmp, .indirect, r15l⟩ returned.installed
    (by simpa only [entered, arrives] using leave) (by simp) (by simp [Cpu.writes]))
  rw [execute_jmp_indirect, address_jump] at jumped
  have pushes (hidden : Word → Prop) (covers : Covers hidden cpu.s 3) :
      SameOutside hidden cpu.memory (Function.update (cpu.execute
        ⟨.jsr, .absolute, restore⟩).memory (stackAddress (cpu.s - 2#8))
        ((cpu.execute ⟨.jsr, .absolute, restore⟩).memory statusCell)) :=
    (same_of_jsr cpu restore (covers.take (by omega))).update_hidden (covers 2 (by omega)) _
  have page := pushes StackPage (covers_stackPage _ _)
  have cells : ∀ address, SavedCell address →
      (cpu.execute ⟨.jsr, .absolute, restore⟩).memory address = cpu.memory address :=
    fun address cell => same_of_jsr cpu restore (covers_stackPage _ _) address fun low => by
      have := saved_beyond cell
      have := low.2
      omega
  have counter := register_congr shows_stackPage (by decide : r15.toNat ≤ 30) page
  refine ⟨{ cpu with pc := register cpu.memory r15, memory := _ }, ?_, rfl, rfl, pushes⟩
  simp only [restored, cells acc (by decide), cells xreg (by decide), cells yreg (by decide),
    cells statusCell (by decide)] at jumped counter ⊢
  rw [← counter]
  exact jumped

theorem restored_congr {other : Memory} (cpu : Cpu)
    (same : ∀ address, SavedCell address → other address = memory address) :
    restored other cpu = restored memory cpu := by
  simp only [restored, same acc (by decide), same xreg (by decide), same yreg (by decide),
    same statusCell (by decide)]

theorem not_work_saved {depth : Nat} {s : Byte} {address : Word} (cell : SavedCell address) :
    ¬ Work depth s address := by
  intro work
  have beyond := saved_beyond cell
  rcases work_scratch work with rfl | rfl | page
  · exact absurd beyond (by decide)
  · exact absurd beyond (by decide)
  · exact absurd page.2 (by omega)

theorem increment_apart (memory : Memory) {address : Word} (beyond : 32 ≤ address.toNat) :
    increment memory r15 address = memory address :=
  setRegister_apart memory (by decide) _ beyond

theorem rtn_executes (installed : restImage.Installed cpu.memory) (entered : cpu.pc = rtn) :
    ∃ last, Executes cpu (restored cpu.memory last) ∧ last.pc = register cpu.memory r15 ∧
      last.s = cpu.s + 2#8 ∧
      ∀ hidden, Covers hidden (cpu.s + 2#8) 3 → SameOutside hidden cpu.memory last.memory := by
  have jump : restImage.Code rtn [⟨.jmp, .absolute, rtnz⟩] := rest_code (by decide)
  have dropping : restImage.Code rtnz [⟨.pla, .implied, 0⟩, ⟨.pla, .implied, 0⟩] :=
    (rest_code (by decide) : restImage.Code rtnz [⟨.pla, .implied, 0⟩, ⟨.pla, .implied, 0⟩,
      ⟨.jsr, .absolute, restore⟩, ⟨.jmp, .indirect, r15l⟩]).take 2
  have jumped := Leads.execute cpu.s ⟨.jmp, .absolute, rtnz⟩ installed (entered ▸ jump) (by simp)
    (by simp [Cpu.writes])
  have dropped := jumped.trans (.block cpu.s _ jumped.installed dropping (by decide)
    (by simp [Image.Apart, Cpu.writes]))
  have up : cpu.s + 1#8 + 1#8 = cpu.s + 2#8 := by bv_omega
  have arrives : rtnz + 1#16 + 1#16 = rtnz + 2#16 := by decide
  obtain ⟨last, leads, pc, s, same⟩ := rtnz_leads dropped.installed (by simp [arrives])
  simp only [execute_jmp, block_cons, block_nil, execute_pla, up] at dropped leads pc s same
  exact ⟨last, dropped.executes.trans leads.executes, pc, s, same⟩

theorem rtn_returns (start : AtLoop level memory cpu) (fit : Fit (Owned level) memory)
    (decoded : decodeOp (increment memory r15 (register (increment memory r15) r15)) = some .rtn) :
    ∃ last, Executes cpu (restored memory last) ∧ last.pc = register memory r15 + 2#16 ∧
      last.s = level ∧
      SameOutside (Work 6 level) (increment (increment memory r15) r15) last.memory := by
  obtain ⟨entered, rfl, binary, resident, apart⟩ := start
  have shows := shows_work 6 cpu.s
  have fifteen : r15.toNat ≤ 30 := by decide
  have works : ∀ address, Work 6 cpu.s address → Owned cpu.s address := fun _ work => .inl work
  have jump := resident.rest.decode (entered ▸ sw16b_code)
  have pushes := same_of_jsr cpu sw16c ((covers_work cpu.s).take (by omega : 2 ≤ 6))
  have same := apart.trans pushes
  have here := next_congr shows same works decoded fit
  have fits := fit_congr shows same works (not_work_cellFF _ _) decoded fit
  obtain ⟨first, leads, pc, s, -, -, -, -, kept⟩ := enters_other (resident.same pushes) rfl
    rfl rfl (fun stacked => (fits _ here).1 _ (mem_places _ _) (.inl (stacked ▸
      round_work (workspace_work _).stack.first))) here (by simp)
  have moved := (resident.same pushes).increment.increment.same kept
  obtain ⟨last, executes, last_pc, last_s, written⟩ := rtn_executes moved.rest pc
  have up : first.s + 2#8 = cpu.s := by
    rw [s]
    change cpu.s - 2#8 + 2#8 = cpu.s
    bv_omega
  have ended : SameOutside (Work 6 cpu.s) (increment (increment memory r15) r15) first.memory :=
    (increment_congr shows fifteen (increment_congr shows fifteen same)).trans
      (kept.mono fun _ work => round_work work)
  have cells : ∀ address, SavedCell address → first.memory address = memory address := by
    intro address cell
    have beyond := saved_beyond cell
    rw [ended address (not_work_saved cell), increment_apart _ (by omega),
      increment_apart _ (by omega)]
  rw [restored_congr last cells] at executes
  refine ⟨last, ((Executes.execute jump (by simp)).trans leads.executes).trans executes, ?_,
    last_s.trans up, ended.trans (written _ (up ▸ (covers_work _).take (by omega : 3 ≤ 6)))⟩
  rw [last_pc, register_congr shows fifteen ended, register_increment, register_increment,
    BitVec.add_assoc]
  rfl

theorem rounds_owned {own : Word → Prop} {count : Nat} {final : Memory}
    (fits : FitsFor own memory count) (ran : rounds count memory = some final) {address : Word}
    (beyond : 32 ≤ address.toNat) (owned : own address) : final address = memory address := by
  induction count generalizing memory with
  | zero =>
    cases ran
    rfl
  | succ count ih =>
    obtain ⟨next, interpreted, onward⟩ := Option.bind_eq_some_iff.mp ran
    rw [ih (fits.after interpreted) onward,
      interpret_owned (fits 0 (by omega) memory rfl) interpreted beyond owned]

theorem started_saved (cpu : Cpu) :
    started cpu acc = cpu.a ∧ started cpu xreg = cpu.x ∧ started cpu yreg = cpu.y ∧
      started cpu statusCell = cpu.p.toByte := by
  have kept (address : Word) (cell : SavedCell address) : started cpu address = saved cpu address :=
    setRegister_apart _ (by decide) _ (by have := saved_beyond cell; omega)
  have first : acc ≠ xreg ∧ acc ≠ yreg ∧ acc ≠ statusCell ∧ xreg ≠ yreg ∧ xreg ≠ statusCell ∧
      yreg ≠ statusCell := by decide
  simp [kept acc (by decide), kept xreg (by decide), kept yreg (by decide),
    kept statusCell (by decide), saved, first]

structure Returned (cpu : Cpu) (pc : Word) (last : Cpu) : Prop where
  pc : last.pc = pc
  a : last.a = cpu.a
  x : last.x = cpu.x
  y : last.y = cpu.y
  s : last.s = cpu.s
  p : last.p = cpu.p

theorem rtn_restores {looped : Cpu} {final : Memory} (arrived : AtLoop cpu.s final looped)
    (fit : Fit (Owned cpu.s) final)
    (ends : decodeOp (increment final r15 (register (increment final r15) r15)) = some .rtn)
    (kept : ∀ address, SavedCell address → final address = started cpu address) :
    ∃ last, Executes looped last ∧ Returned cpu (register final r15 + 2#16) last ∧
      SameOutside (Work 6 cpu.s) (increment (increment final r15) r15) last.memory := by
  obtain ⟨last, leaves, pc, s, same⟩ := rtn_returns arrived fit ends
  obtain ⟨a, x, y, p⟩ := started_saved cpu
  have taken : final statusCell = cpu.p.toByte := (kept statusCell (by decide)).trans p
  refine ⟨_, leaves, ⟨pc, (kept acc (by decide)).trans a, (kept xreg (by decide)).trans x,
    (kept yreg (by decide)).trans y, s, ?_⟩, same⟩
  simp [restored, taken]

end Return

theorem call_loops {count : Nat} {final : Memory} (resident : Resident cpu.memory)
    (call : Mos6502.decode cpu.memory cpu.pc = some ⟨.jsr, .absolute, sweet16⟩)
    (fits : FitsFor (Owned cpu.s) (started cpu) count)
    (ran : rounds count (started cpu) = some final) :
    ∃ looped, Executes cpu looped ∧ AtLoop cpu.s final looped := by
  obtain ⟨loop, enters, start⟩ := call_enters resident call
  obtain ⟨looped, performs, arrived⟩ := loop_performs count _ _ _ loop start fits ran
  exact ⟨looped, enters.trans performs, arrived⟩

theorem call_returns {count : Nat} {final : Memory} {looped : Cpu}
    (arrived : AtLoop cpu.s final looped) (fits : FitsFor (Owned cpu.s) (started cpu) (count + 1))
    (ran : rounds count (started cpu) = some final)
    (ends : decodeOp (increment final r15 (register (increment final r15) r15)) = some .rtn) :
    ∃ last, Executes looped last ∧ Returned cpu (register final r15 + 2#16) last ∧
      SameOutside (Work 6 cpu.s) (increment (increment final r15) r15) last.memory :=
  rtn_restores arrived (fits count (by omega) final ran) ends fun address cell =>
    rounds_owned (fits.before count.le_succ) ran (by have := saved_beyond cell; omega)
      (.inr (.inr cell))

end Akiso.Sweet16
