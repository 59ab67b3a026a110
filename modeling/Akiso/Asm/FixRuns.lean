import Akiso.Asm.Routines

set_option autoImplicit false

namespace Akiso.Sweet16

open Mos6502

namespace Fix

def image : Image :=
  listing.image

theorem clear : image.Clear :=
  listing.clear rfl

theorem assembled :
    listing.all (fun part => decide (listing.image.Code part.1 part.2)) = true := by
  decide +kernel

theorem code_of {pc : Word} {instructions : List Instruction}
    (listed : (pc, instructions) ∈ listing) : image.Code pc instructions :=
  listing.code assembled listed

theorem stat_code : image.Code stat [⟨.lda, .zeroPage, r0l⟩] :=
  code_of (by decide)

theorem stat2_code : image.Code stat2 [⟨.jsr, .absolute, indreg⟩, ⟨.ldy, .immediate, 0#16⟩,
    ⟨.sta, .indirectY, r16l⟩] :=
  code_of (by decide)

theorem stat3_code : image.Code stat3 (stat3Code stat3) :=
  (code_of (by decide : (stat3, [⟨.sty, .zeroPage, r14h⟩]) ∈ listing)).append
    ((code_of (by decide : (inr, [⟨.inc, .zeroPageX, r0l⟩, ⟨.bne, .relative, inr2⟩,
        ⟨.inc, .zeroPageX, r0h⟩]) ∈ listing)).append
      (code_of (by decide : (inr2, _) ∈ listing)) (by decide)) (by decide)

theorem ldat_code : image.Code ldat [⟨.jsr, .absolute, indreg⟩, ⟨.ldy, .immediate, 0#16⟩,
    ⟨.lda, .indirectY, r16l⟩, ⟨.sta, .zeroPage, r0l⟩, ⟨.ldy, .immediate, 0#16⟩,
    ⟨.sty, .zeroPage, r0h⟩, ⟨.beq, .relative, stat3⟩] :=
  code_of (by decide)

theorem pop_code : image.Code pop [⟨.ldy, .immediate, 0#16⟩, ⟨.beq, .relative, pop2⟩] :=
  code_of (by decide)

theorem popd_code : image.Code popd [⟨.jsr, .absolute, dcr⟩, ⟨.jsr, .absolute, indreg⟩,
    ⟨.ldy, .immediate, 0#16⟩, ⟨.lda, .indirectY, r16l⟩, ⟨.tay, .implied, 0#16⟩] :=
  code_of (by decide)

theorem pop2_code : image.Code pop2 [⟨.jsr, .absolute, dcr⟩, ⟨.jsr, .absolute, indreg⟩,
    ⟨.tya, .implied, 0#16⟩, ⟨.pha, .implied, 0#16⟩, ⟨.ldy, .immediate, 0#16⟩,
    ⟨.lda, .indirectY, r16l⟩, ⟨.sta, .zeroPage, r0l⟩, ⟨.pla, .implied, 0#16⟩,
    ⟨.tay, .implied, 0#16⟩, ⟨.lda, .zeroPage, r0l⟩, ⟨.sty, .zeroPage, r0h⟩] :=
  code_of (by decide)

theorem pop3_code : image.Code pop3 pop3Code :=
  code_of (by decide)

theorem stpat_code : image.Code stpat [⟨.jsr, .absolute, dcr⟩, ⟨.jsr, .absolute, indreg⟩,
    ⟨.tya, .implied, 0#16⟩, ⟨.pha, .implied, 0#16⟩, ⟨.lda, .zeroPage, r0l⟩,
    ⟨.ldy, .immediate, 0#16⟩, ⟨.sta, .indirectY, r16l⟩, ⟨.pla, .implied, 0#16⟩,
    ⟨.tay, .implied, 0#16⟩, ⟨.jmp, .absolute, pop3⟩] :=
  code_of (by decide)

theorem dcr_code : image.Code dcr (dcrCode dcr) :=
  (code_of (by decide : (dcr, [⟨.lda, .zeroPageX, r0l⟩, ⟨.bne, .relative, dcr2⟩,
      ⟨.dec, .zeroPageX, r0h⟩]) ∈ listing)).append
    (code_of (by decide : (dcr2, _) ∈ listing)) (by decide)

theorem indreg_code : image.Code indreg (indregCode ++ [⟨.rts, .implied, 0#16⟩]) :=
  code_of (by decide)

variable {cpu : Cpu} {hidden : Word → Prop}

theorem address_scratch (cpu : Cpu) (operation : Operation) (zero : cpu.y = 0#8) :
    cpu.address ⟨operation, .indirectY, r16l⟩ = pointerAt cpu.memory 0x20#8 := by
  simp [Cpu.address, zero, r16l]

theorem pointerAt_push (memory : Memory) (s byte : Byte) :
    pointerAt (Function.update memory (stackAddress s) byte) 0x20#8 = pointerAt memory 0x20#8 := by
  obtain ⟨notLow, notHigh⟩ := stack_ne_scratch s
  have first : (0x20#8).setWidth 16 ≠ stackAddress s := fun same => notLow (same ▸ rfl)
  have second : (0x20#8 + 1#8).setWidth 16 ≠ stackAddress s := fun same => notHigh (same ▸ rfl)
  rw [pointerAt, pointerAt, Function.update_of_ne first, Function.update_of_ne second]

theorem indreg_reaches (installed : image.Installed cpu.memory)
    (workspace : Workspace hidden cpu.s) (small : cpu.x.toNat ≤ 30)
    (call : image.Code cpu.pc [⟨.jsr, .absolute, indreg⟩]) :
    ∃ last, Reaches image hidden cpu (cpu.pc + 3#16) cpu.memory last ∧ last.a = cpu.a ∧
      last.y = cpu.y ∧ pointerAt last.memory 0x20#8 = register cpu.memory cpu.x :=
  indreg_call clear installed workspace small call (indreg_code.take 8) (indreg_code.drop 8)

theorem dcr_reaches (installed : image.Installed cpu.memory)
    (workspace : Workspace hidden cpu.s) (small : cpu.x.toNat ≤ 30)
    (call : image.Code cpu.pc [⟨.jsr, .absolute, dcr⟩]) :
    ∃ last, Reaches image hidden cpu (cpu.pc + 3#16) (decrement cpu.memory cpu.x) last ∧
      last.y = cpu.y :=
  dcr_call clear installed workspace.shows (workspace.stack.take (by omega)) small call dcr_code

theorem stat_done (installed : image.Installed cpu.memory)
    (workspace : Workspace hidden cpu.s) (entry : cpu.pc = stat) (small : cpu.x.toNat ≤ 30)
    (apart : image (register cpu.memory cpu.x) = none) :
    Done image hidden cpu (perform cpu.memory cpu.x .stat) := by
  have call : image.Code stat2 [⟨.jsr, .absolute, indreg⟩] := stat2_code.take 1
  have code : image.Code (stat2 + 3#16) [⟨.ldy, .immediate, 0#16⟩, ⟨.sta, .indirectY, r16l⟩] :=
    stat2_code.drop 1
  have loaded := Leads.execute cpu.s _ installed (entry ▸ stat_code) (by simp)
    (by simp [Cpu.writes])
  have arrives : stat + 2#16 = stat2 := by decide
  obtain ⟨copied, reaches, a, -, pointer⟩ := indreg_reaches loaded.installed
    workspace small (by simpa [entry, arrives] using call)
  have stored := Leads.block copied.s _ reaches.leads.installed
    (by rw [reaches.pc]; simpa [entry, arrives] using code) (by decide)
    (by simpa [Image.Apart, Cpu.writes, Cpu.past, address_scratch, pointer] using apart)
  have next : stat2 + 3#16 + 2#16 + 2#16 = stat3 := by decide
  have done := stat3_done clear stored.installed
    (by simpa [reaches.pc, entry, arrives, next] using stat3_code) (by simp) hidden
  have both :=
    (done.after (stored.reaches rfl rfl rfl hidden) (.refl _ _)).after reaches (.refl _ _)
  refine both.after (loaded.reaches rfl rfl rfl hidden) ?_
  simpa [perform, reaches.x, address_scratch, pointer, a] using
    increment_congr workspace.shows small (markResult_congr (reaches.same.update
      (register cpu.memory cpu.x) (cpu.memory r0l)))

theorem ldat_done (installed : image.Installed cpu.memory)
    (workspace : Workspace hidden cpu.s) (entry : cpu.pc = ldat) (small : cpu.x.toNat ≤ 30)
    (shown : ¬ hidden (register cpu.memory cpu.x)) :
    Done image hidden cpu (perform cpu.memory cpu.x .ldat) := by
  have code : image.Code (ldat + 3#16) [⟨.ldy, .immediate, 0#16⟩, ⟨.lda, .indirectY, r16l⟩,
    ⟨.sta, .zeroPage, r0l⟩, ⟨.ldy, .immediate, 0#16⟩, ⟨.sty, .zeroPage, r0h⟩] :=
    (ldat_code.drop 1).take 5
  have branch : image.Code (ldat + 13#16) [⟨.beq, .relative, stat3⟩] := ldat_code.drop 6
  obtain ⟨copied, reaches, -, -, pointer⟩ :=
    indreg_reaches installed workspace small (entry ▸ ldat_code.take 1)
  have load := Leads.block copied.s _ reaches.leads.installed
    (by rw [reaches.pc, entry]; exact code) (by decide)
    (by simp [Image.Apart, Cpu.writes, Cpu.past, clear r0l (by decide), clear r0h (by decide)])
  have run := load.trans (.execute copied.s _ load.installed
    (by simpa [reaches.pc, entry, BitVec.add_assoc] using branch) (by simp) (by simp [Cpu.writes]))
  have done := stat3_done clear run.installed (by simpa using stat3_code) (by simp) hidden
  have loaded := done.after (run.reaches (by simp) (by simp) (by simp) hidden) (.refl _ _)
  refine loaded.after reaches ?_
  have byte := reaches.same _ shown
  simpa [perform, setResult, reaches.x, address_scratch, pointer, byte] using
    increment_congr workspace.shows small (markResult_congr (setResult_congr reaches.same
      (cpu.memory (register cpu.memory cpu.x)) 0#8))

-- POP2, with the high byte in Y, which is on the stack while Y is zero.
theorem pop2_done (installed : image.Installed cpu.memory)
    (workspace : Workspace hidden cpu.s) (entry : cpu.pc = pop2) (small : cpu.x.toNat ≤ 30)
    (shown : ¬ hidden (register cpu.memory cpu.x - 1#16)) :
    Done image hidden cpu (markResult (setResult (decrement cpu.memory cpu.x)
      (decrement cpu.memory cpu.x (register cpu.memory cpu.x - 1#16)) cpu.y)) := by
  have callNext : image.Code (pop2 + 3#16) [⟨.jsr, .absolute, indreg⟩] :=
    (pop2_code.drop 1).take 1
  have code : image.Code (pop2 + 6#16) [⟨.tya, .implied, 0#16⟩, ⟨.pha, .implied, 0#16⟩,
    ⟨.ldy, .immediate, 0#16⟩, ⟨.lda, .indirectY, r16l⟩, ⟨.sta, .zeroPage, r0l⟩,
    ⟨.pla, .implied, 0#16⟩, ⟨.tay, .implied, 0#16⟩, ⟨.lda, .zeroPage, r0l⟩,
    ⟨.sty, .zeroPage, r0h⟩] := pop2_code.drop 2
  obtain ⟨down, lowered, y⟩ := dcr_reaches installed workspace small (entry ▸ pop2_code.take 1)
  obtain ⟨copied, reaches, -, yNext, pointer⟩ := indreg_reaches lowered.leads.installed
    (lowered.s ▸ workspace) (lowered.x ▸ small) (by rw [lowered.pc, entry]; exact callNext)
  have run := Leads.block copied.s _ reaches.leads.installed
    (by rw [reaches.pc, lowered.pc, entry]; simpa [BitVec.add_assoc] using code) (by decide)
    (by simp [Image.Apart, Cpu.writes, Cpu.past, clear.stack, clear r0l (by decide),
      clear r0h (by decide)])
  have arrives : pop2 + 3#16 + 3#16 + 1#16 + 1#16 + 2#16 + 2#16 + 2#16 + 1#16 + 1#16 + 2#16 + 2#16 =
    pop3 := by decide
  have done := pop3_done clear run.installed
    (by simpa [reaches.pc, lowered.pc, entry, arrives] using pop3_code) hidden
  have loaded := done.after (run.reaches (by simp) (by simp) (by simp) hidden)
    (.refl _ _)
  refine (loaded.after reaches ?_).after lowered (.refl _ _)
  rw [lowered.x, register_congr workspace.shows small lowered.same, register_decrement] at pointer
  have level : hidden (stackAddress copied.s) := by
    rw [reaches.s, lowered.s]
    exact workspace.stack.first
  have pushed := (lowered.same.trans reaches.same).update_hidden level cpu.y
  have byte := pushed _ shown
  have free : stackAddress copied.s ≠ r0l := (stack_ne_register copied.s 0#8).1
  simpa [setResult, address_scratch, pointerAt_push, pointer, byte, free, yNext, y] using
    markResult_congr (setResult_congr pushed _ cpu.y)

theorem pop_done (installed : image.Installed cpu.memory)
    (workspace : Workspace hidden cpu.s) (entry : cpu.pc = pop) (small : cpu.x.toNat ≤ 30)
    (shown : ¬ hidden (register cpu.memory cpu.x - 1#16)) :
    Done image hidden cpu (perform cpu.memory cpu.x .pop) := by
  have load := Leads.execute cpu.s _ installed (entry ▸ pop_code) (by simp) (by simp [Cpu.writes])
  have run := load.trans (.execute cpu.s _ load.installed (entry ▸ pop_code.2.2) (by simp)
    (by simp [Cpu.writes]))
  have done := pop2_done run.installed workspace (by simp) (by simpa using small)
    (by simpa using shown)
  exact done.after (run.reaches (by simp) (by simp) (by simp) hidden)
    (by simpa [perform] using .refl _ _)

theorem popd_done (installed : image.Installed cpu.memory)
    (workspace : Workspace hidden cpu.s) (entry : cpu.pc = popd) (small : cpu.x.toNat ≤ 30)
    (shown : ¬ hidden (register cpu.memory cpu.x - 1#16))
    (shownNext : ¬ hidden (register cpu.memory cpu.x - 2#16)) :
    Done image hidden cpu (perform cpu.memory cpu.x .popd) := by
  have callNext : image.Code (popd + 3#16) [⟨.jsr, .absolute, indreg⟩] :=
    (popd_code.drop 1).take 1
  have code : image.Code (popd + 6#16) [⟨.ldy, .immediate, 0#16⟩, ⟨.lda, .indirectY, r16l⟩,
    ⟨.tay, .implied, 0#16⟩] := popd_code.drop 2
  obtain ⟨down, lowered, -⟩ := dcr_reaches installed workspace small (entry ▸ popd_code.take 1)
  obtain ⟨copied, reaches, -, -, pointer⟩ := indreg_reaches lowered.leads.installed
    (lowered.s ▸ workspace) (lowered.x ▸ small) (by rw [lowered.pc, entry]; exact callNext)
  have run := Leads.block copied.s _ reaches.leads.installed
    (by rw [reaches.pc, lowered.pc, entry]; simpa [BitVec.add_assoc] using code) (by decide)
    (by simp [Image.Apart, Cpu.writes])
  rw [lowered.x, register_congr workspace.shows small lowered.same, register_decrement] at pointer
  have same := lowered.same.trans reaches.same
  have x : copied.x = cpu.x := reaches.x.trans lowered.x
  have byte := same _ shown
  have again := register_congr workspace.shows small same
  have arrives : popd + 3#16 + 3#16 + 2#16 + 2#16 + 1#16 = pop2 := by decide
  have s : copied.s = cpu.s := reaches.s.trans lowered.s
  have done := pop2_done run.installed (s ▸ workspace)
    (by simp [reaches.pc, lowered.pc, entry, arrives]) (x ▸ small)
    (by simpa [x, again, BitVec.sub_sub] using shownNext)
  have loaded := done.after (run.reaches rfl rfl rfl hidden) (.refl _ _)
  refine (loaded.after reaches ?_).after lowered (.refl _ _)
  have lower := decrement_congr workspace.shows small same
  have byteNext := lower (register cpu.memory cpu.x - 2#16) shownNext
  simpa [perform, x, again, address_scratch, pointer, byte, byteNext, BitVec.sub_sub] using
    markResult_congr (setResult_congr lower _ _)

theorem stpat_done (installed : image.Installed cpu.memory)
    (workspace : Workspace hidden cpu.s) (entry : cpu.pc = stpat) (small : cpu.x.toNat ≤ 30)
    (apart : image (register cpu.memory cpu.x - 1#16) = none) :
    Done image hidden cpu (perform cpu.memory cpu.x .stpat) := by
  have callNext : image.Code (stpat + 3#16) [⟨.jsr, .absolute, indreg⟩] :=
    (stpat_code.drop 1).take 1
  have code : image.Code (stpat + 6#16) [⟨.tya, .implied, 0#16⟩, ⟨.pha, .implied, 0#16⟩,
    ⟨.lda, .zeroPage, r0l⟩, ⟨.ldy, .immediate, 0#16⟩, ⟨.sta, .indirectY, r16l⟩,
    ⟨.pla, .implied, 0#16⟩, ⟨.tay, .implied, 0#16⟩] := (stpat_code.drop 2).take 7
  have jump : image.Code (stpat + 16#16) [⟨.jmp, .absolute, pop3⟩] := stpat_code.drop 9
  obtain ⟨down, lowered, y⟩ := dcr_reaches installed workspace small (entry ▸ stpat_code.take 1)
  obtain ⟨copied, reaches, -, yNext, pointer⟩ := indreg_reaches lowered.leads.installed
    (lowered.s ▸ workspace) (lowered.x ▸ small) (by rw [lowered.pc, entry]; exact callNext)
  rw [lowered.x, register_congr workspace.shows small lowered.same, register_decrement] at pointer
  have stored := Leads.block copied.s _ reaches.leads.installed
    (by rw [reaches.pc, lowered.pc, entry]; simpa [BitVec.add_assoc] using code) (by decide)
    (by simp [Image.Apart, Cpu.writes, Cpu.past, clear.stack, address_scratch, pointerAt_push,
      pointer, apart])
  have run := stored.trans (.execute copied.s _ stored.installed
    (by simpa [reaches.pc, lowered.pc, entry, BitVec.add_assoc] using jump) (by simp)
    (by simp [Cpu.writes]))
  have done := pop3_done clear run.installed (by simpa using pop3_code) hidden
  have loaded := done.after (run.reaches (by simp) (by simp) (by simp) hidden)
    (.refl _ _)
  refine (loaded.after reaches ?_).after lowered (.refl _ _)
  have level : hidden (stackAddress copied.s) := by
    rw [reaches.s, lowered.s]
    exact workspace.stack.first
  have pushed := (lowered.same.trans reaches.same).update_hidden level cpu.y
  have byte := pushed r0l (workspace.shows r0l (by decide))
  simpa [perform, address_scratch, pointerAt_push, pointer, byte, yNext, y] using
    markResult_congr (pushed.update (register cpu.memory cpu.x - 1#16) _)

theorem performs_hidden (handler : Handler) (installed : image.Installed cpu.memory)
    (workspace : Workspace hidden cpu.s) (entered : cpu.pc = entry handler)
    (small : cpu.x.toNat ≤ 30)
    (apart : ∀ address ∈ dereferenced cpu.memory cpu.x handler,
      ¬ hidden address ∧ image address = none) :
    Done image hidden cpu (perform cpu.memory cpu.x handler) := by
  cases handler with
  | stat =>
    exact stat_done installed workspace entered small (apart _ (by simp [dereferenced])).2
  | ldat =>
    exact ldat_done installed workspace entered small (apart _ (by simp [dereferenced])).1
  | pop => exact pop_done installed workspace entered small (apart _ (by simp [dereferenced])).1
  | popd =>
    exact popd_done installed workspace entered small (apart _ (by simp [dereferenced])).1
      (apart _ (by simp [dereferenced])).1
  | stpat =>
    exact stpat_done installed workspace entered small (apart _ (by simp [dereferenced])).2

end Fix

end Akiso.Sweet16
