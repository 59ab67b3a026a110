import Akiso.Shared.Strtol
import Mathlib.Algebra.Order.Field.Rat
import Mathlib.Data.Nat.Cast.Order.Field
import Mathlib.Tactic.FieldSimp
import Mathlib.Tactic.Linarith
import Mathlib.Tactic.Positivity
import Mathlib.Tactic.Ring

set_option autoImplicit false

namespace Akiso.F2b

open Strtol

/-- What the loops compute in 64 bits without a sign. -/
inductive Operation where
  | multiply (first second : UInt64)
  | shift (value : UInt64)
  | subtract (first second : UInt64)
  deriving DecidableEq, Repr

def Operation.result : Operation → UInt64
  | multiply first second => first * second
  | shift value => value <<< 1
  | subtract first second => first - second

def Operation.Exact (operation : Operation) : Prop :=
  match operation with
  | multiply first second => operation.result.toNat = first.toNat * second.toNat
  | shift value => operation.result.toNat = 2 * value.toNat
  | subtract first second => (operation.result.toNat : Int) = first.toNat - second.toNat

def limitOf : Nat → UInt64 × List Operation
  | 0 => (1, [])
  | len + 1 =>
    let (limit, operations) := limitOf len
    let product := Operation.multiply limit 10
    (product.result, operations ++ [product])

structure Expansion where
  printed : List UInt8
  operations : List Operation

def Expansion.after (before : List UInt8) (operations : List Operation) (rest : Expansion) :
    Expansion :=
  { printed := before ++ rest.printed, operations := operations ++ rest.operations }

def expand (limit : UInt64) : Nat → UInt64 → Expansion
  | 0, _ => { printed := [], operations := [] }
  | turns + 1, number =>
    let doubling := Operation.shift number
    let number := doubling.result
    if number = 0 then { printed := [], operations := [doubling] }
    else if limit ≤ number then
      let reduction := Operation.subtract number limit
      (expand limit turns reduction.result).after [49] [doubling, reduction]
    else (expand limit turns number).after [48] [doubling]

-- The bytes behind the first of these; the program adds one to index without looking at it.
def behind (byte : UInt8) (text : List UInt8) : Option (List UInt8) :=
  match text.dropWhile (· ≠ byte) with
  | [] => none
  | _ :: rest => some rest

def atoi (text : List UInt8) : Int :=
  toInt (strtol text).1

def atoll (text : List UInt8) : Int :=
  (strtol text).1

-- main on its arguments; none if there are too few of them, or no point in the first.
def f2b : List (List UInt8) → Option Expansion
  | _ :: argument :: precision :: _ => do
    let precision := atoi precision
    let text ← behind 46 argument
    let number := UInt64.ofInt (atoll text)
    let (limit, operations) := limitOf text.length
    let expansion := expand limit precision.toNat number
    return { printed := [48, 46] ++ expansion.printed ++ [10]
             operations := operations ++ expansion.operations }
  | _ => none

def binarySum : Nat → List UInt8 → ℚ
  | _, [] => 0
  | power, digit :: rest =>
    ((digit.toNat - 48 : Nat) : ℚ) / 2 ^ power + binarySum (power + 1) rest

structure Expands (fraction : ℚ) (precision : Nat) (digits : List UInt8) : Prop where
  binary : ∀ digit ∈ digits, digit = 48 ∨ digit = 49
  within : digits.length ≤ precision
  below : binarySum 1 digits ≤ fraction
  close : fraction - binarySum 1 digits < 1 / 2 ^ digits.length
  early : digits.length < precision → binarySum 1 digits = fraction

theorem binarySum_succ (power : Nat) (digits : List UInt8) :
    binarySum (power + 1) digits = binarySum power digits / 2 := by
  induction digits generalizing power with
  | nil => simp [binarySum]
  | cons digit rest ih =>
    simp only [binarySum, ih (power + 1), pow_succ]
    ring

theorem Expands.cons {fraction : ℚ} {precision : Nat} {digits : List UInt8} {digit : UInt8}
    (rest : Expands (2 * fraction - (digit.toNat - 48 : Nat)) precision digits)
    (bit : digit = 48 ∨ digit = 49) : Expands fraction (precision + 1) (digit :: digits) := by
  have sum : binarySum 1 (digit :: digits) =
      ((digit.toNat - 48 : Nat) + binarySum 1 digits) / 2 := by
    rw [binarySum, binarySum_succ]
    ring
  have below := rest.below
  have close := rest.close
  refine ⟨?_, Nat.succ_le_succ rest.within, ?_, ?_, fun fewer => ?_⟩
  · rintro other (_ | ⟨_, member⟩)
    · exact bit
    · exact rest.binary other member
  · rw [sum]
    linarith
  · rw [sum, List.length_cons, pow_succ]
    have half : (1 : ℚ) / (2 ^ digits.length * 2) = 1 / 2 ^ digits.length / 2 := by
      rw [div_div]
    rw [half]
    linarith
  · have exact := rest.early (Nat.lt_of_succ_lt_succ fewer)
    rw [sum, exact]
    ring

theorem shift_exact {number : UInt64} (room : 2 * number.toNat < 18446744073709551616) :
    (Operation.shift number).Exact := by
  simp only [Operation.Exact, Operation.result, UInt64.toNat_shiftLeft, Nat.shiftLeft_eq]
  rw [show (1 : UInt64).toNat % 64 = 1 from rfl, pow_one]
  omega

theorem subtract_exact {first second : UInt64} (le : second ≤ first) :
    (Operation.subtract first second).Exact := by
  have values : second.toNat ≤ first.toNat := UInt64.le_iff_toNat_le.mp le
  simp only [Operation.Exact, Operation.result, UInt64.toNat_sub_of_le _ _ le]
  omega

theorem expand_ends {limit number : UInt64} (zero : number <<< 1 = 0) (turns : Nat) :
    expand limit (turns + 1) number = { printed := [], operations := [.shift number] } := by
  simp [expand, Operation.result, zero]

theorem expand_one {limit number : UInt64} (more : number <<< 1 ≠ 0) (enough : limit ≤ number <<< 1)
    (turns : Nat) :
    expand limit (turns + 1) number = (expand limit turns (number <<< 1 - limit)).after [49]
      [.shift number, .subtract (number <<< 1) limit] := by
  simp [expand, Operation.result, more, enough]

theorem expand_zero {limit number : UInt64} (more : number <<< 1 ≠ 0)
    (less : ¬ limit ≤ number <<< 1) (turns : Nat) :
    expand limit (turns + 1) number =
      (expand limit turns (number <<< 1)).after [48] [.shift number] := by
  simp [expand, Operation.result, more, less]

-- The invariant of the loop is number < limit, where twice the limit fits in 64 bits.
theorem expand_expands (limit number : UInt64) (turns : Nat) (small : number < limit)
    (room : 2 * limit.toNat ≤ 18446744073709551616) :
    Expands (number.toNat / limit.toNat) turns (expand limit turns number).printed ∧
      ∀ operation ∈ (expand limit turns number).operations, operation.Exact := by
  have below : number.toNat < limit.toNat := UInt64.lt_iff_toNat_lt.mp small
  have positive : (0 : ℚ) < limit.toNat := by exact_mod_cast Nat.zero_lt_of_lt below
  induction turns generalizing number with
  | zero =>
    refine ⟨⟨by simp [expand], Nat.le_refl _, ?_, ?_, fun fewer => absurd fewer (by simp)⟩,
      by simp [expand]⟩
    · simp only [expand, binarySum]
      positivity
    · have less : (number.toNat : ℚ) < limit.toNat := by exact_mod_cast below
      simpa [expand, binarySum, div_lt_one positive] using less
  | succ turns ih =>
    have shifted : (Operation.shift number).Exact := shift_exact (by omega)
    have doubled : (number <<< 1).toNat = 2 * number.toNat := shifted
    by_cases zero : number <<< 1 = 0
    · have none : number.toNat = 0 := by
        rw [zero, UInt64.toNat_zero] at doubled
        omega
      rw [expand_ends zero]
      refine ⟨⟨by simp, Nat.zero_le _, ?_, ?_, fun _ => ?_⟩, by simpa using shifted⟩ <;>
        simp [none, binarySum]
    · by_cases enough : limit ≤ number <<< 1
      · have reduced : (Operation.subtract (number <<< 1) limit).Exact := subtract_exact enough
        have left : ((number <<< 1 - limit).toNat : Int) =
            (number <<< 1).toNat - limit.toNat := reduced
        have less : (number <<< 1 - limit).toNat < limit.toNat := by omega
        obtain ⟨rest, exact⟩ := ih _ (UInt64.lt_iff_toNat_lt.mpr less) less
        have value : ((number <<< 1 - limit).toNat : ℚ) = 2 * number.toNat - limit.toNat := by
          rw [doubled] at left
          exact_mod_cast left
        have remains : ((number <<< 1 - limit).toNat : ℚ) / limit.toNat =
            2 * ((number.toNat : ℚ) / limit.toNat) - 1 := by
          rw [value, sub_div, div_self positive.ne', mul_div_assoc]
        rw [expand_one zero enough]
        refine ⟨.cons ?_ (.inr rfl), ?_⟩
        · rw [remains] at rest
          simpa using rest
        · simpa [Expansion.after, shifted, reduced] using exact
      · have less : (number <<< 1).toNat < limit.toNat :=
          UInt64.lt_iff_toNat_lt.mp (UInt64.not_le.mp enough)
        obtain ⟨rest, exact⟩ := ih (number <<< 1) (UInt64.not_le.mp enough) less
        rw [expand_zero zero enough]
        refine ⟨.cons ?_ (.inl rfl), ?_⟩
        · rw [doubled, Nat.cast_mul, Nat.cast_ofNat, mul_div_assoc] at rest
          simpa using rest
        · simpa [Expansion.after, shifted] using exact

theorem limitOf_exact {len : Nat} (few : len ≤ 18) :
    (limitOf len).1.toNat = 10 ^ len ∧ ∀ operation ∈ (limitOf len).2, operation.Exact := by
  induction len with
  | zero => exact ⟨rfl, by simp [limitOf]⟩
  | succ len ih =>
    obtain ⟨value, exact⟩ := ih (by omega)
    have bound : 10 ^ len ≤ 10 ^ 17 := Nat.pow_le_pow_right (by decide) (by omega)
    have product : ((limitOf len).1 * 10).toNat = 10 ^ len * 10 := by
      rw [UInt64.toNat_mul, value, show (10 : UInt64).toNat = 10 from rfl]
      exact Nat.mod_eq_of_lt (by omega)
    refine ⟨product, fun operation member => ?_⟩
    simp only [limitOf, List.mem_append, List.mem_singleton] at member
    rcases member with earlier | rfl
    · exact exact operation earlier
    · rw [Operation.Exact, Operation.result, product, value]
      rfl

theorem atoll_digits {digits : List UInt8} (filled : digits ≠ [])
    (numeral : digits.all isDigit = true) (few : digits.length ≤ 18) :
    (UInt64.ofInt (atoll digits)).toNat = decimal digits := by
  have small := decimal_lt numeral
  have bound : 10 ^ digits.length ≤ 10 ^ 18 := Nat.pow_le_pow_right (by decide) few
  have kept : saturate (decimal digits) = decimal digits := by
    unfold saturate
    omega
  rw [atoll, strtol_of_written digits _ (written_digits filled numeral), kept, UInt64.ofInt,
    UInt64.toNat_ofNat']
  omega

theorem f2b_expands (program digits precisionText : List UInt8) (others : List (List UInt8))
    (precision : Nat) (positive : 1 ≤ digits.length) (few : digits.length ≤ 18)
    (numeral : digits.all isDigit = true) (asked : atoi precisionText = precision) :
    ∃ printed operations,
      f2b (program :: (48 :: 46 :: digits) :: precisionText :: others) =
        some { printed := [48, 46] ++ printed ++ [10], operations } ∧
      Expands (decimal digits / 10 ^ digits.length) precision printed ∧
      ∀ operation ∈ operations, operation.Exact := by
  have number := atoll_digits (List.ne_nil_of_length_pos positive) numeral few
  obtain ⟨limit, product⟩ := limitOf_exact few
  have bound : 10 ^ digits.length ≤ 10 ^ 18 := Nat.pow_le_pow_right (by decide) few
  have small : UInt64.ofInt (atoll digits) < (limitOf digits.length).1 := by
    rw [UInt64.lt_iff_toNat_lt, number, limit]
    exact decimal_lt numeral
  obtain ⟨expands, loop⟩ := expand_expands _ _ precision small (by omega)
  rw [number, limit] at expands
  have text : behind 46 (48 :: 46 :: digits) = some digits := by
    simp [behind]
  refine ⟨(expand (limitOf digits.length).1 precision (UInt64.ofInt (atoll digits))).printed,
    (limitOf digits.length).2 ++
      (expand (limitOf digits.length).1 precision (UInt64.ofInt (atoll digits))).operations,
    ?_, by simpa using expands, fun operation member => ?_⟩
  · simp [f2b, text, asked]
  · rcases List.mem_append.mp member with earlier | later
    · exact product operation earlier
    · exact loop operation later

theorem f2b_expands_eighths : ∃ printed operations,
    f2b [[102], [48, 46, 54, 50, 53], [53]] =
      some { printed := [48, 46] ++ printed ++ [10], operations } ∧
    Expands (decimal [54, 50, 53] / 10 ^ 3) 5 printed ∧
    ∀ operation ∈ operations, operation.Exact :=
  f2b_expands [102] [54, 50, 53] [53] [] 5 (by decide) (by decide) (by decide) (by decide)

end Akiso.F2b
