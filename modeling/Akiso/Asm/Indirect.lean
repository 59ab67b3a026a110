import Akiso.Asm.Sweet16
import Akiso.Shared.Subroutines

set_option autoImplicit false

namespace Akiso.Sweet16

open Mos6502

def low (x : Byte) : Word :=
  x.setWidth 16

def high (x : Byte) : Word :=
  (x + 1#8).setWidth 16

def register (memory : Memory) (x : Byte) : Word :=
  memory (high x) ++ memory (low x)

def setRegister (memory : Memory) (x : Byte) (value : Word) : Memory :=
  Function.update (Function.update memory (low x) (value.setWidth 8)) (high x)
    ((value >>> 8).setWidth 8)

def increment (memory : Memory) (x : Byte) : Memory :=
  setRegister memory x (register memory x + 1#16)

def decrement (memory : Memory) (x : Byte) : Memory :=
  setRegister memory x (register memory x - 1#16)

def setResult (memory : Memory) (lowByte highByte : Byte) : Memory :=
  Function.update (Function.update memory r0l lowByte) r0h highByte

def markResult (memory : Memory) : Memory :=
  Function.update memory r14h 0#8

-- What the instructions do: RX goes up behind the byte and down in front of it.
def perform (memory : Memory) (x : Byte) : Handler → Memory
  | .stat => increment (markResult (Function.update memory (register memory x) (memory r0l))) x
  | .ldat => increment (markResult (setResult memory (memory (register memory x)) 0#8)) x
  | .pop =>
    let memory := decrement memory x
    markResult (setResult memory (memory (register memory x)) 0#8)
  | .popd =>
    let memory := decrement memory x
    let highByte := memory (register memory x)
    let memory := decrement memory x
    markResult (setResult memory (memory (register memory x)) highByte)
  | .stpat =>
    let memory := decrement memory x
    markResult (Function.update memory (register memory x) (memory r0l))

def dereferenced (memory : Memory) (x : Byte) : Handler → List Word
  | .stat | .ldat => [register memory x]
  | .pop | .stpat => [register memory x - 1#16]
  | .popd => [register memory x - 1#16, register memory x - 2#16]

variable {memory other : Memory} {x : Byte} {hidden weaker : Word → Prop}

theorem toNat_low (x : Byte) : (low x).toNat = x.toNat := by
  have := x.isLt
  simp only [low, BitVec.toNat_setWidth]
  omega

theorem toNat_high (small : x.toNat ≤ 30) : (high x).toNat = x.toNat + 1 := by
  simp only [high, BitVec.toNat_setWidth, BitVec.toNat_add, BitVec.toNat_ofNat]
  omega

theorem low_ne_high (x : Byte) : low x ≠ high x := by
  intro same
  have bytes : x = x + 1#8 := by
    simpa [low, high] using congrArg (BitVec.setWidth 8) same
  bv_omega

@[simp] theorem register_setRegister (memory : Memory) (x : Byte) (value : Word) :
    register (setRegister memory x value) x = value := by
  simp [register, setRegister, Function.update_of_ne (low_ne_high x), append_halves]

theorem setRegister_append (memory : Memory) (x highByte lowByte : Byte) :
    setRegister memory x (highByte ++ lowByte) =
      Function.update (Function.update memory (low x) lowByte) (high x) highByte := by
  rw [setRegister, low_of_append, high_of_append]

theorem setRegister_low (memory : Memory) (x lowByte : Byte) :
    setRegister memory x (memory (high x) ++ lowByte) = Function.update memory (low x) lowByte := by
  rw [setRegister_append]
  funext address
  by_cases same : address = high x
  · subst same
    simp [Function.update_of_ne (low_ne_high x).symm]
  · simp [Function.update_of_ne same]

theorem increment_eq (memory : Memory) (x : Byte) :
    increment memory x =
      if memory (low x) + 1#8 = 0#8 then
        Function.update (Function.update memory (low x) 0#8) (high x) (memory (high x) + 1#8)
      else Function.update memory (low x) (memory (low x) + 1#8) := by
  rw [increment, register, append_add_one]
  split
  next => exact setRegister_append memory x _ _
  next => exact setRegister_low memory x _

theorem decrement_eq (memory : Memory) (x : Byte) :
    decrement memory x =
      if memory (low x) = 0#8 then
        Function.update (Function.update memory (high x) (memory (high x) - 1#8)) (low x)
          (memory (low x) - 1#8)
      else Function.update memory (low x) (memory (low x) - 1#8) := by
  rw [decrement, register, append_sub_one]
  split
  next => rw [setRegister_append, Function.update_comm (low_ne_high x)]
  next => exact setRegister_low memory x _

theorem setRegister_of_ne (memory : Memory) (value : Word) {address : Word}
    (notLow : address ≠ low x) (notHigh : address ≠ high x) :
    setRegister memory x value address = memory address := by
  rw [setRegister, Function.update_of_ne notHigh, Function.update_of_ne notLow]

theorem perform_of_apart (memory : Memory) (small : x.toNat ≤ 30) (handler : Handler)
    {address : Word} (beyond : 32 ≤ address.toNat)
    (apart : address ∉ dereferenced memory x handler) :
    perform memory x handler address = memory address := by
  have notLow : address ≠ low x := by
    rintro rfl
    rw [toNat_low] at beyond
    omega
  have notHigh : address ≠ high x := by
    rintro rfl
    rw [toNat_high small] at beyond
    omega
  have fixed (place : Word) (below : place.toNat < 32) : address ≠ place := by
    rintro rfl
    omega
  have notR0l := fixed r0l (by decide)
  have notR0h := fixed r0h (by decide)
  have notR14h := fixed r14h (by decide)
  cases handler <;>
    simp_all [perform, dereferenced, increment, decrement, markResult, setResult,
      setRegister_of_ne]

def Shows (hidden : Word → Prop) : Prop :=
  ∀ address, address.toNat < 32 → ¬ hidden address

variable (shows : Shows hidden) (small : x.toNat ≤ 30)

include shows small in
theorem shows_low : ¬ hidden (low x) :=
  shows _ (by rw [toNat_low]; omega)

include shows small in
theorem shows_high : ¬ hidden (high x) :=
  shows _ (by rw [toNat_high small]; omega)

include shows small in
theorem register_congr (same : SameOutside hidden memory other) :
    register other x = register memory x := by
  rw [register, register, same _ (shows_low shows small), same _ (shows_high shows small)]

theorem setRegister_congr (same : SameOutside hidden memory other) (value : Word) :
    SameOutside hidden (setRegister memory x value) (setRegister other x value) :=
  (same.update _ _).update _ _

include shows small in
theorem increment_congr (same : SameOutside hidden memory other) :
    SameOutside hidden (increment memory x) (increment other x) := by
  rw [increment, increment, register_congr shows small same]
  exact setRegister_congr same _

include shows small in
theorem decrement_congr (same : SameOutside hidden memory other) :
    SameOutside hidden (decrement memory x) (decrement other x) := by
  rw [decrement, decrement, register_congr shows small same]
  exact setRegister_congr same _

theorem setResult_congr (same : SameOutside hidden memory other) (lowByte highByte : Byte) :
    SameOutside hidden (setResult memory lowByte highByte) (setResult other lowByte highByte) :=
  (same.update _ _).update _ _

theorem markResult_congr (same : SameOutside hidden memory other) :
    SameOutside hidden (markResult memory) (markResult other) :=
  same.update _ _

@[simp] theorem register_decrement (memory : Memory) (x : Byte) :
    register (decrement memory x) x = register memory x - 1#16 :=
  register_setRegister memory x _

include shows small in
theorem perform_congr (same : SameOutside hidden memory other) (handler : Handler)
    (shown : ∀ address ∈ dereferenced memory x handler, ¬ hidden address) :
    SameOutside hidden (perform memory x handler) (perform other x handler) := by
  have result : other r0l = memory r0l := same _ (shows _ (by decide))
  have pointer := register_congr shows small same
  have down := decrement_congr shows small same
  cases handler with
  | stat =>
    simp only [perform, pointer, result]
    exact increment_congr shows small (markResult_congr (same.update _ _))
  | ldat =>
    have read := same (register memory x) (shown _ (by simp [dereferenced]))
    simp only [perform, pointer, read]
    exact increment_congr shows small (markResult_congr (setResult_congr same _ _))
  | pop =>
    have read := down (register memory x - 1#16) (shown _ (by simp [dereferenced]))
    simp only [perform, register_decrement, pointer, read]
    exact markResult_congr (setResult_congr down _ _)
  | popd =>
    have lower := decrement_congr shows small down
    have first := down (register memory x - 1#16) (shown _ (by simp [dereferenced]))
    have second := lower (register memory x - 1#16 - 1#16)
      (shown _ (by simp [dereferenced, BitVec.sub_sub]))
    simp only [perform, register_decrement, pointer, first, second]
    exact markResult_congr (setResult_congr lower _ _)
  | stpat =>
    have kept : decrement other x r0l = decrement memory x r0l := down _ (shows _ (by decide))
    simp only [perform, register_decrement, pointer, kept]
    exact markResult_congr (down.update _ _)

end Akiso.Sweet16
