import Akiso.Asm.Routines

set_option autoImplicit false

namespace Akiso.Sweet16

open Mos6502

namespace Original

def image : Image :=
  listing.image

theorem clear : image.Clear :=
  listing.clear rfl

theorem assembled :
    listing.all (fun part => decide (listing.image.Code part.1 part.2)) = true := by
  decide +kernel

theorem code_of {pc : Word} {instructions : List Instruction}
    (listed : (pc, instructions) ∈ listing) : image.Code pc instructions :=
  listing.code assembled listed

theorem stat_code : image.Code stat
    [⟨.lda, .zeroPage, r0l⟩, ⟨.sta, .indirectX, r0l⟩, ⟨.ldy, .immediate, 0#16⟩] :=
  (code_of (by decide : (stat, [⟨.lda, .zeroPage, r0l⟩]) ∈ listing)).append
    (code_of (by decide : (stat2, _) ∈ listing)) (by decide)

theorem stat3_code : image.Code stat3 (stat3Code stat3) :=
  (code_of (by decide : (stat3, [⟨.sty, .zeroPage, r14h⟩]) ∈ listing)).append
    ((code_of (by decide : (inr, [⟨.inc, .zeroPageX, r0l⟩, ⟨.bne, .relative, inr2⟩,
        ⟨.inc, .zeroPageX, r0h⟩]) ∈ listing)).append
      (code_of (by decide : (inr2, _) ∈ listing)) (by decide)) (by decide)

theorem ldat_code : image.Code ldat [⟨.lda, .indirectX, r0l⟩, ⟨.sta, .zeroPage, r0l⟩,
    ⟨.ldy, .immediate, 0#16⟩, ⟨.sty, .zeroPage, r0h⟩, ⟨.beq, .relative, stat3⟩] :=
  code_of (by decide)

theorem pop_code : image.Code pop [⟨.ldy, .immediate, 0#16⟩, ⟨.beq, .relative, pop2⟩] :=
  code_of (by decide)

theorem popd_code : image.Code popd [⟨.jsr, .absolute, dcr⟩, ⟨.lda, .indirectX, r0l⟩,
    ⟨.tay, .implied, 0#16⟩] :=
  code_of (by decide)

theorem pop2_code : image.Code pop2 [⟨.jsr, .absolute, dcr⟩, ⟨.lda, .indirectX, r0l⟩,
    ⟨.sta, .zeroPage, r0l⟩, ⟨.sty, .zeroPage, r0h⟩] :=
  code_of (by decide)

theorem pop3_code : image.Code pop3 pop3Code :=
  code_of (by decide)

theorem stpat_code : image.Code stpat [⟨.jsr, .absolute, dcr⟩, ⟨.lda, .zeroPage, r0l⟩,
    ⟨.sta, .indirectX, r0l⟩, ⟨.jmp, .absolute, pop3⟩] :=
  code_of (by decide)

theorem dcr_code : image.Code dcr (dcrCode dcr) :=
  (code_of (by decide : (dcr, [⟨.lda, .zeroPageX, r0l⟩, ⟨.bne, .relative, dcr2⟩,
      ⟨.dec, .zeroPageX, r0h⟩]) ∈ listing)).append
    (code_of (by decide : (dcr2, _) ∈ listing)) (by decide)

variable {cpu : Cpu}

theorem stat_done (installed : image.Installed cpu.memory) (entry : cpu.pc = stat)
    (apart : image (register cpu.memory cpu.x) = none) :
    Done image StackPage cpu (perform cpu.memory cpu.x .stat) := by
  have run := Leads.block cpu.s _ installed (entry ▸ stat_code) (by decide)
    (by simp [Image.Apart, Cpu.writes, Cpu.past, apart])
  have arrives : stat + 2#16 + 2#16 + 2#16 = stat3 := by decide
  have done := stat3_done clear run.installed (by simpa [entry, arrives] using stat3_code) (by simp)
    StackPage
  exact done.after (run.reaches rfl rfl rfl StackPage) (by simpa [perform] using .refl _ _)

theorem ldat_done (installed : image.Installed cpu.memory) (entry : cpu.pc = ldat) :
    Done image StackPage cpu (perform cpu.memory cpu.x .ldat) := by
  have branch : image.Code (ldat + 8#16) [⟨.beq, .relative, stat3⟩] := ldat_code.drop 4
  have load := Leads.block cpu.s _ installed (entry ▸ ldat_code.take 4) (by decide)
    (by simp [Image.Apart, Cpu.writes, Cpu.past, clear r0l (by decide), clear r0h (by decide)])
  have run := load.trans (.execute cpu.s _ load.installed
    (by simpa [entry, BitVec.add_assoc] using branch) (by simp) (by simp [Cpu.writes]))
  have done := stat3_done clear run.installed (by simpa [entry] using stat3_code) (by simp)
    StackPage
  exact done.after (run.reaches (by simp) (by simp) (by simp) StackPage)
    (by simpa [perform, setResult] using .refl _ _)

theorem pop2_done (installed : image.Installed cpu.memory) (entry : cpu.pc = pop2)
    (small : cpu.x.toNat ≤ 30) (shown : ¬ StackPage (register cpu.memory cpu.x - 1#16)) :
    Done image StackPage cpu (markResult (setResult (decrement cpu.memory cpu.x)
      (decrement cpu.memory cpu.x (register cpu.memory cpu.x - 1#16)) cpu.y)) := by
  have code : image.Code (pop2 + 3#16) [⟨.lda, .indirectX, r0l⟩, ⟨.sta, .zeroPage, r0l⟩,
    ⟨.sty, .zeroPage, r0h⟩] := pop2_code.drop 1
  obtain ⟨down, reaches, y⟩ := dcr_call clear installed shows_stackPage
    (covers_stackPage _ _) small (entry ▸ pop2_code.take 1) dcr_code
  have run := Leads.block down.s _ reaches.leads.installed
    (by rw [reaches.pc, entry]; exact code) (by decide)
    (by simp [Image.Apart, Cpu.writes, Cpu.past, clear r0l (by decide), clear r0h (by decide)])
  have arrives : pop2 + 3#16 + 2#16 + 2#16 + 2#16 = pop3 := by decide
  have done := pop3_done clear run.installed (by simpa [reaches.pc, entry, arrives] using pop3_code)
    StackPage
  have pointer := register_congr shows_stackPage small reaches.same
  have byte := reaches.same _ shown
  have loaded := done.after (run.reaches rfl rfl rfl StackPage) (.refl _ _)
  refine loaded.after reaches ?_
  simpa [setResult, reaches.x, pointer, byte, y] using
    markResult_congr (setResult_congr reaches.same _ cpu.y)

theorem pop_done (installed : image.Installed cpu.memory) (entry : cpu.pc = pop)
    (small : cpu.x.toNat ≤ 30) (shown : ¬ StackPage (register cpu.memory cpu.x - 1#16)) :
    Done image StackPage cpu (perform cpu.memory cpu.x .pop) := by
  have load := Leads.execute cpu.s _ installed (entry ▸ pop_code) (by simp) (by simp [Cpu.writes])
  have run := load.trans (.execute cpu.s _ load.installed (entry ▸ pop_code.2.2) (by simp)
    (by simp [Cpu.writes]))
  have done := pop2_done run.installed (by simp) (by simpa using small) (by simpa using shown)
  exact done.after (run.reaches (by simp) (by simp) (by simp) StackPage)
    (by simpa [perform] using .refl _ _)

theorem popd_done (installed : image.Installed cpu.memory) (entry : cpu.pc = popd)
    (small : cpu.x.toNat ≤ 30) (shown : ¬ StackPage (register cpu.memory cpu.x - 1#16))
    (shownNext : ¬ StackPage (register cpu.memory cpu.x - 2#16)) :
    Done image StackPage cpu (perform cpu.memory cpu.x .popd) := by
  have code : image.Code (popd + 3#16) [⟨.lda, .indirectX, r0l⟩, ⟨.tay, .implied, 0#16⟩] :=
    popd_code.drop 1
  obtain ⟨down, reaches, -⟩ := dcr_call clear installed shows_stackPage
    (covers_stackPage _ _) small (entry ▸ popd_code.take 1) dcr_code
  have run := Leads.block down.s _ reaches.leads.installed
    (by rw [reaches.pc, entry]; exact code) (by decide)
    (by simp [Image.Apart, Cpu.writes])
  have pointer := register_congr shows_stackPage small reaches.same
  have byte := reaches.same _ shown
  have arrives : popd + 3#16 + 2#16 + 1#16 = pop2 := by decide
  have done := pop2_done run.installed (by simp [reaches.pc, entry, arrives]) (reaches.x ▸ small)
    (by simpa [reaches.x, pointer, BitVec.sub_sub] using shownNext)
  have loaded := done.after (run.reaches rfl rfl rfl StackPage) (.refl _ _)
  refine loaded.after reaches ?_
  have lower := decrement_congr shows_stackPage small reaches.same
  have byteNext := lower (register cpu.memory cpu.x - 2#16) shownNext
  simpa [perform, reaches.x, pointer, byte, byteNext, BitVec.sub_sub] using
    markResult_congr (setResult_congr lower _ _)

theorem stpat_done (installed : image.Installed cpu.memory) (entry : cpu.pc = stpat)
    (small : cpu.x.toNat ≤ 30) (apart : image (register cpu.memory cpu.x - 1#16) = none) :
    Done image StackPage cpu (perform cpu.memory cpu.x .stpat) := by
  have code : image.Code (stpat + 3#16) [⟨.lda, .zeroPage, r0l⟩, ⟨.sta, .indirectX, r0l⟩] :=
    (stpat_code.drop 1).take 2
  have jump : image.Code (stpat + 7#16) [⟨.jmp, .absolute, pop3⟩] := stpat_code.drop 3
  obtain ⟨down, reaches, -⟩ := dcr_call clear installed shows_stackPage
    (covers_stackPage _ _) small (entry ▸ stpat_code.take 1) dcr_code
  have pointer := register_congr shows_stackPage small reaches.same
  have byte := reaches.same r0l (shows_stackPage r0l (by decide))
  have stored := Leads.block down.s _ reaches.leads.installed
    (by rw [reaches.pc, entry]; exact code) (by decide)
    (by simp [Image.Apart, Cpu.writes, Cpu.past, reaches.x, pointer, apart])
  have run := stored.trans (.execute down.s _ stored.installed
    (by simpa [reaches.pc, entry, BitVec.add_assoc] using jump) (by simp) (by simp [Cpu.writes]))
  have done := pop3_done clear run.installed (by simpa using pop3_code) StackPage
  have loaded := done.after (run.reaches (by simp) (by simp) (by simp) StackPage) (.refl _ _)
  refine loaded.after reaches ?_
  simpa [perform, reaches.x, pointer, byte] using
    markResult_congr (reaches.same.update (register cpu.memory cpu.x - 1#16)
      (decrement cpu.memory cpu.x r0l))

end Original

end Akiso.Sweet16
