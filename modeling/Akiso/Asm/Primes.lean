import Akiso.Shared.I386
import Mathlib.Data.Nat.Prime.Basic

set_option autoImplicit false

namespace Akiso.Primes

open I386

-- The function of the C program.
def isPrimeFrom (a i : Int) : Bool :=
  if i < a then
    if a.tmod i = 0 then false else isPrimeFrom a (i + 1)
  else true
termination_by (a - i).toNat

def isPrime (a : Int) : Bool :=
  if a < 2 then false else isPrimeFrom a 2

inductive Label where
  | isPrime
  | isPrimeForInit
  | isPrimeForBody
  | isPrimeForIncrement
  | isPrimeForCondition
  | isPrimeExit
  deriving DecidableEq, Repr

def code : List (Instruction Label) :=
  [.label .isPrime,
    .push (.register .ebp),
    .mov (.register .ebp) (.register .esp),
    .sub (.register .esp) (.immediate 4#32),
    .cmp (.dword .ebp 8#32) (.immediate 1#32),
    .jcc .greater .isPrimeForInit,
    .mov (.register .eax) (.immediate 0#32),
    .jmp .isPrimeExit,
    .label .isPrimeForInit,
    .mov (.dword .ebp (-4#32)) (.immediate 2#32),
    .jmp .isPrimeForCondition,
    .label .isPrimeForBody,
    .mov (.register .eax) (.dword .ebp 8#32),
    .cdq,
    .idiv (.dword .ebp (-4#32)),
    .mov (.register .eax) (.register .edx),
    .test (.register .eax) (.register .eax),
    .jcc .notEqual .isPrimeForIncrement,
    .mov (.register .eax) (.immediate 0#32),
    .jmp .isPrimeExit,
    .label .isPrimeForIncrement,
    .add (.dword .ebp (-4#32)) (.immediate 1#32),
    .label .isPrimeForCondition,
    .mov (.register .eax) (.dword .ebp (-4#32)),
    .cmp (.register .eax) (.dword .ebp 8#32),
    .jcc .less .isPrimeForBody,
    .mov (.register .eax) (.immediate 1#32),
    .label .isPrimeExit,
    .leave,
    .ret]

def Label.place (name : Label) : Place :=
  .line (code.idxOf (.label name))

def OwnWord (esp address : Word) : Prop :=
  address = esp - 8#32 ∨ address = esp - 4#32 ∨ address = esp ∨ address = esp + 4#32

def Proper (esp : Word) (machine : Machine) (instruction : Instruction Label) : Prop :=
  (∀ address ∈ machine.touched instruction, OwnWord esp address) ∧
    ∀ target source, instruction = .add target source →
      (machine.value target + machine.value source).toInt =
        (machine.value target).toInt + (machine.value source).toInt

def argument (start : Machine) : Word :=
  readWord start.memory (start.esp + 4#32)

structure Returns (start last : Machine) (result : Word) : Prop where
  place : last.place = .returned (readWord start.memory start.esp)
  eax : last.eax = result
  ebp : last.ebp = start.ebp
  esp : last.esp = start.esp + 4#32

theorem isPrimeFrom_iff (a i : Int) :
    isPrimeFrom a i = true ↔ ∀ d, i ≤ d → d < a → ¬ d ∣ a := by
  fun_induction isPrimeFrom a i with
  | case1 i less divides =>
    have divides : i ∣ a := Int.dvd_of_tmod_eq_zero divides
    simpa using ⟨i, Int.le_refl i, less, divides⟩
  | case2 i less other ih =>
    rw [ih]
    constructor
    · intro later d from_ below
      by_cases same : d = i
      · subst same
        exact fun divides => other (Int.tmod_eq_zero_of_dvd divides)
      · exact later d (by omega) below
    · intro all d from_ below
      exact all d (by omega) below
  | case3 i beyond =>
    simp only [true_iff]
    intro d from_ below
    omega

theorem isPrime_iff (a : Int) : isPrime a = true ↔ a.toNat.Prime := by
  unfold isPrime
  split
  next small =>
    have below : a.toNat < 2 := by omega
    exact iff_of_false Bool.false_ne_true fun prime => absurd prime.two_le (by omega)
  next large =>
    have whole : (a.toNat : Int) = a := Int.toNat_of_nonneg (by omega)
    rw [isPrimeFrom_iff, Nat.prime_def_lt']
    constructor
    · intro none
      refine ⟨by omega, fun m least below divides => ?_⟩
      refine none m (by omega) (by omega) ?_
      rw [← whole]
      exact Int.natCast_dvd_natCast.mpr divides
    · rintro ⟨-, none⟩ d least below divides
      refine none d.toNat (by omega) (by omega) ?_
      rw [← Int.natCast_dvd_natCast, whole, Int.toNat_of_nonneg (by omega)]
      exact divides

end Akiso.Primes
