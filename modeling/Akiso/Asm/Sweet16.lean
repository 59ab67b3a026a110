import Akiso.Shared.MachineCode

set_option autoImplicit false

namespace Akiso.Sweet16

open Mos6502

def r0l : Word := 0x00

def r0h : Word := 0x01

def r14h : Word := 0x1D

def r16l : Word := 0x20

def r16h : Word := 0x21

inductive Handler where
  | stat
  | ldat
  | pop
  | popd
  | stpat
  deriving DecidableEq, Repr

namespace Original

def stat : Word := 0xA717
def stat2 : Word := 0xA719
def stat3 : Word := 0xA71D
def inr : Word := 0xA71F
def inr2 : Word := 0xA725
def ldat : Word := 0xA726
def pop : Word := 0xA730
def popd : Word := 0xA734
def pop2 : Word := 0xA73A
def pop3 : Word := 0xA743
def stpat : Word := 0xA75C
def dcr : Word := 0xA766
def dcr2 : Word := 0xA76C

def entry : Handler → Word
  | .stat => stat
  | .ldat => ldat
  | .pop => pop
  | .popd => popd
  | .stpat => stpat

def listing : Listing :=
  [(stat, [⟨.lda, .zeroPage, r0l⟩]),
    (stat2, [⟨.sta, .indirectX, r0l⟩, ⟨.ldy, .immediate, 0⟩]),
    (stat3, [⟨.sty, .zeroPage, r14h⟩]),
    (inr, [⟨.inc, .zeroPageX, r0l⟩, ⟨.bne, .relative, inr2⟩, ⟨.inc, .zeroPageX, r0h⟩]),
    (inr2, [⟨.rts, .implied, 0⟩]),
    (ldat, [⟨.lda, .indirectX, r0l⟩, ⟨.sta, .zeroPage, r0l⟩, ⟨.ldy, .immediate, 0⟩,
      ⟨.sty, .zeroPage, r0h⟩, ⟨.beq, .relative, stat3⟩]),
    (pop, [⟨.ldy, .immediate, 0⟩, ⟨.beq, .relative, pop2⟩]),
    (popd, [⟨.jsr, .absolute, dcr⟩, ⟨.lda, .indirectX, r0l⟩, ⟨.tay, .implied, 0⟩]),
    (pop2, [⟨.jsr, .absolute, dcr⟩, ⟨.lda, .indirectX, r0l⟩, ⟨.sta, .zeroPage, r0l⟩,
      ⟨.sty, .zeroPage, r0h⟩]),
    (pop3, [⟨.ldy, .immediate, 0⟩, ⟨.sty, .zeroPage, r14h⟩, ⟨.rts, .implied, 0⟩]),
    (stpat, [⟨.jsr, .absolute, dcr⟩, ⟨.lda, .zeroPage, r0l⟩, ⟨.sta, .indirectX, r0l⟩,
      ⟨.jmp, .absolute, pop3⟩]),
    (dcr, [⟨.lda, .zeroPageX, r0l⟩, ⟨.bne, .relative, dcr2⟩, ⟨.dec, .zeroPageX, r0h⟩]),
    (dcr2, [⟨.dec, .zeroPageX, r0l⟩, ⟨.rts, .implied, 0⟩])]

end Original

namespace Fix

def stat : Word := 0xA717
def stat2 : Word := 0xA719
def stat3 : Word := 0xA720
def inr : Word := 0xA722
def inr2 : Word := 0xA728
def ldat : Word := 0xA729
def pop : Word := 0xA738
def popd : Word := 0xA73C
def pop2 : Word := 0xA747
def pop3 : Word := 0xA75B
def stpat : Word := 0xA76A
def dcr : Word := 0xA77D
def dcr2 : Word := 0xA783
def indreg : Word := 0xC023

def entry : Handler → Word
  | .stat => stat
  | .ldat => ldat
  | .pop => pop
  | .popd => popd
  | .stpat => stpat

def listing : Listing :=
  [(stat, [⟨.lda, .zeroPage, r0l⟩]),
    (stat2, [⟨.jsr, .absolute, indreg⟩, ⟨.ldy, .immediate, 0⟩, ⟨.sta, .indirectY, r16l⟩]),
    (stat3, [⟨.sty, .zeroPage, r14h⟩]),
    (inr, [⟨.inc, .zeroPageX, r0l⟩, ⟨.bne, .relative, inr2⟩, ⟨.inc, .zeroPageX, r0h⟩]),
    (inr2, [⟨.rts, .implied, 0⟩]),
    (ldat, [⟨.jsr, .absolute, indreg⟩, ⟨.ldy, .immediate, 0⟩,
      ⟨.lda, .indirectY, r16l⟩, ⟨.sta, .zeroPage, r0l⟩, ⟨.ldy, .immediate, 0⟩,
      ⟨.sty, .zeroPage, r0h⟩, ⟨.beq, .relative, stat3⟩]),
    (pop, [⟨.ldy, .immediate, 0⟩, ⟨.beq, .relative, pop2⟩]),
    (popd, [⟨.jsr, .absolute, dcr⟩, ⟨.jsr, .absolute, indreg⟩,
      ⟨.ldy, .immediate, 0⟩, ⟨.lda, .indirectY, r16l⟩, ⟨.tay, .implied, 0⟩]),
    (pop2, [⟨.jsr, .absolute, dcr⟩, ⟨.jsr, .absolute, indreg⟩,
      ⟨.tya, .implied, 0⟩, ⟨.pha, .implied, 0⟩, ⟨.ldy, .immediate, 0⟩, ⟨.lda, .indirectY, r16l⟩,
      ⟨.sta, .zeroPage, r0l⟩, ⟨.pla, .implied, 0⟩, ⟨.tay, .implied, 0⟩, ⟨.lda, .zeroPage, r0l⟩,
      ⟨.sty, .zeroPage, r0h⟩]),
    (pop3, [⟨.ldy, .immediate, 0⟩, ⟨.sty, .zeroPage, r14h⟩, ⟨.rts, .implied, 0⟩]),
    (stpat, [⟨.jsr, .absolute, dcr⟩, ⟨.jsr, .absolute, indreg⟩,
      ⟨.tya, .implied, 0⟩, ⟨.pha, .implied, 0⟩, ⟨.lda, .zeroPage, r0l⟩, ⟨.ldy, .immediate, 0⟩,
      ⟨.sta, .indirectY, r16l⟩, ⟨.pla, .implied, 0⟩, ⟨.tay, .implied, 0⟩,
      ⟨.jmp, .absolute, pop3⟩]),
    (dcr, [⟨.lda, .zeroPageX, r0l⟩, ⟨.bne, .relative, dcr2⟩, ⟨.dec, .zeroPageX, r0h⟩]),
    (dcr2, [⟨.dec, .zeroPageX, r0l⟩, ⟨.rts, .implied, 0⟩]),
    (indreg, [⟨.pha, .implied, 0⟩, ⟨.php, .implied, 0⟩, ⟨.lda, .zeroPageX, r0l⟩,
      ⟨.sta, .zeroPage, r16l⟩, ⟨.lda, .zeroPageX, r0h⟩, ⟨.sta, .zeroPage, r16h⟩,
      ⟨.plp, .implied, 0⟩, ⟨.pla, .implied, 0⟩, ⟨.rts, .implied, 0⟩])]

end Fix

end Akiso.Sweet16
