import Mathlib.Algebra.GCDMonoid.Nat

set_option autoImplicit false

namespace Akiso.Gcd

def intMax : Int := 2147483647

/-- How the loop ends; gcd has no value before the first assignment. -/
inductive Ended where
  | done (gcd : Option Int)
  | divisionByZero
  | overflow
  deriving DecidableEq, Repr

def gcdLoop (n1 n2 i : Int) (gcd : Option Int) : Ended :=
  if i ≤ n1 ∧ i ≤ n2 then
    if i = 0 then .divisionByZero
    else
      let gcd := if n1.tmod i = 0 ∧ n2.tmod i = 0 then some i else gcd
      if i = intMax then .overflow else gcdLoop n1 n2 (i + 1) gcd
  else .done gcd
termination_by (n1 + 1 - i).toNat

def gcdMain (n1 n2 : Int) : Ended :=
  gcdLoop n1 n2 1 none

structure PositiveInt (value : Int) : Prop where
  positive : 1 ≤ value
  fits : value ≤ intMax

variable {n1 n2 : Int}

theorem divides_iff (i : Int) :
    n1.tmod i = 0 ∧ n2.tmod i = 0 ↔ i ∣ (Int.gcd n1 n2 : Int) := by
  rw [Int.dvd_coe_gcd_iff, Int.dvd_iff_tmod_eq_zero, Int.dvd_iff_tmod_eq_zero]

-- From i on the loop finds the greatest common divisor, unless it is behind already.
theorem gcdLoop_eq (i : Int) (gcd : Option Int) (positive : 1 ≤ i)
    (first : PositiveInt n1) (second : PositiveInt n2) (room : n1 < intMax ∨ n2 < intMax) :
    gcdLoop n1 n2 i gcd =
      .done (if i ≤ (Int.gcd n1 n2 : Int) then some (Int.gcd n1 n2 : Int) else gcd) := by
  have divides := Int.gcd_dvd_left (a := n1) (b := n2)
  have dividesOther := Int.gcd_dvd_right (a := n1) (b := n2)
  have least := Int.le_of_dvd (by have := first.positive; omega) divides
  have leastOther := Int.le_of_dvd (by have := second.positive; omega) dividesOther
  have fits := first.fits
  have fitsOther := second.fits
  fun_induction gcdLoop n1 n2 i gcd with
  | case1 => omega
  | case2 => omega
  | case3 i gcd below zero next more ih =>
    rw [ih (by omega)]
    have nonzero : (0 : Int) < Int.gcd n1 n2 := by
      have := Int.gcd_pos_of_ne_zero_left n2 (show n1 ≠ 0 by have := first.positive; omega)
      omega
    by_cases common : i ∣ (Int.gcd n1 n2 : Int)
    · have small := Int.le_of_dvd nonzero common
      have recorded : next = some i := if_pos ((divides_iff i).mpr common)
      rw [if_pos small, recorded]
      split
      next => rfl
      next last =>
        have same : i = Int.gcd n1 n2 := by omega
        rw [← same]
    · have kept : next = gcd := if_neg fun both => common ((divides_iff i).mp both)
      have other : i ≠ Int.gcd n1 n2 := by
        rintro same
        exact common (by rw [← same])
      have later : i + 1 ≤ (Int.gcd n1 n2 : Int) ↔ i ≤ (Int.gcd n1 n2 : Int) := by omega
      simp only [later, kept]
  | case4 i gcd beyond =>
    rw [if_neg]
    omega

-- At the top of the range the condition of the loop holds of every int.
theorem gcdLoop_overflows (i : Int) (gcd : Option Int) (positive : 1 ≤ i) (fits : i ≤ intMax) :
    gcdLoop intMax intMax i gcd = .overflow := by
  fun_induction gcdLoop intMax intMax i gcd with
  | case1 => omega
  | case2 => rfl
  | case3 i gcd below zero next more ih => exact ih (by omega) (by omega)
  | case4 i gcd beyond => omega

theorem gcdMain_iff (n1 n2 : Int) (first : PositiveInt n1) (second : PositiveInt n2) :
    gcdMain n1 n2 = .done (some (Int.gcd n1 n2)) ↔ ¬ (n1 = intMax ∧ n2 = intMax) := by
  have fits := first.fits
  have fitsOther := second.fits
  by_cases top : n1 = intMax ∧ n2 = intMax
  · obtain ⟨rfl, rfl⟩ := top
    rw [gcdMain, gcdLoop_overflows 1 none (by decide) (by decide)]
    simp
  · have least : (1 : Int) ≤ Int.gcd n1 n2 := by
      have := Int.gcd_pos_of_ne_zero_left n2 (show n1 ≠ 0 by have := first.positive; omega)
      omega
    rw [gcdMain, gcdLoop_eq 1 none (by decide) first second (by omega), if_pos least]
    simp [top]

theorem gcdMain_twelve : gcdMain 12 18 = .done (some (Int.gcd 12 18)) :=
  (gcdMain_iff 12 18 ⟨by decide, by decide⟩ ⟨by decide, by decide⟩).mpr (by decide)

theorem gcdMain_fails :
    ¬ ∀ n1 n2 : Int, PositiveInt n1 → PositiveInt n2 →
      gcdMain n1 n2 = .done (some (Int.gcd n1 n2)) := by
  intro claim
  have overflows : gcdMain intMax intMax = .overflow :=
    gcdLoop_overflows 1 none (by decide) (by decide)
  have ended := claim intMax intMax ⟨by decide, by decide⟩ ⟨by decide, by decide⟩
  rw [overflows] at ended
  cases ended

end Akiso.Gcd
