import Mathlib.Algebra.Group.Nat.Defs
import Mathlib.Data.List.TakeWhile
import Mathlib.Order.MinMax

set_option autoImplicit false

/-!
# Decimal numerals as the C library reads them

`strtol` in base 10 on a 64-bit long: blanks, one sign, digits, a saturated value, and the text
left after the numeral (the whole text when there is none).
-/

namespace Akiso.Strtol

def isSpace (byte : UInt8) : Bool :=
  byte = 32 || (9 ≤ byte && byte ≤ 13)

def isDigit (byte : UInt8) : Bool :=
  48 ≤ byte && byte ≤ 57

def decimal (digits : List UInt8) : Nat :=
  digits.foldl (fun value digit => value * 10 + (digit.toNat - 48)) 0

def saturate (value : Int) : Int :=
  max (-9223372036854775808) (min 9223372036854775807 value)

def signed (text : List UInt8) : Bool × List UInt8 :=
  match text with
  | [] => (false, [])
  | sign :: rest =>
    if sign = 45 then (true, rest) else if sign = 43 then (false, rest) else (false, sign :: rest)

def strtol (text : List UInt8) : Int × List UInt8 :=
  let (negative, body) := signed (text.dropWhile isSpace)
  let digits := body.takeWhile isDigit
  if digits.isEmpty then (0, text)
  else
    let value : Int := decimal digits
    (saturate (if negative then -value else value), body.dropWhile isDigit)

def toInt (value : Int) : Int :=
  value.bmod 4294967296

def written (text : List UInt8) : Option Int :=
  let (negative, body) := signed (text.dropWhile isSpace)
  if body ≠ [] ∧ body.all isDigit then
    some (if negative then -(decimal body : Int) else decimal body)
  else none

theorem written_other (text : List UInt8) {other : UInt8} (space : isSpace other = false)
    (digit : isDigit other = false) (minus : other ≠ 45) (plus : other ≠ 43) :
    written (text ++ [other]) = none := by
  obtain ⟨rest, dropped⟩ :
      ∃ rest, (text ++ [other]).dropWhile isSpace = rest ++ [other] := by
    induction text with
    | nil => exact ⟨[], by simp [space]⟩
    | cons first rest ih =>
      by_cases blank : isSpace first = true
      · simpa [blank] using ih
      · exact ⟨first :: rest, by simp [blank]⟩
  obtain ⟨negative, body, parts⟩ :
      ∃ negative body, signed (rest ++ [other]) = (negative, body ++ [other]) := by
    cases rest with
    | nil => exact ⟨false, [], by simp [signed, minus, plus]⟩
    | cons sign rest =>
      simp only [signed, List.cons_append]
      split
      next => exact ⟨true, rest, rfl⟩
      next =>
        split
        next => exact ⟨false, rest, rfl⟩
        next => exact ⟨false, sign :: rest, rfl⟩
  simp [written, dropped, parts, digit]

theorem strtol_of_written (text : List UInt8) (value : Int) (numeral : written text = some value) :
    strtol text = (saturate value, []) := by
  unfold written at numeral
  unfold strtol
  generalize signed (text.dropWhile isSpace) = parts at numeral ⊢
  obtain ⟨negative, body⟩ := parts
  simp only [ne_eq, Option.ite_none_right_eq_some, Option.some.injEq] at numeral ⊢
  obtain ⟨⟨some, digits⟩, rfl⟩ := numeral
  rw [List.all_eq_true] at digits
  have whole : body.takeWhile isDigit = body := List.takeWhile_eq_self_iff.mpr digits
  have nothing : body.dropWhile isDigit = [] := List.dropWhile_eq_nil_iff.mpr digits
  simp [whole, nothing, some]

theorem strtol_of_not_written (text : List UInt8) (some : text ≠ [])
    (other : written text = none) : (strtol text).2 ≠ [] := by
  unfold written at other
  unfold strtol
  generalize signed (text.dropWhile isSpace) = parts at other ⊢
  obtain ⟨negative, body⟩ := parts
  simp only [ne_eq, ite_eq_right_iff, reduceCtorEq, imp_false, not_and] at other ⊢
  split
  next => exact some
  next digits =>
    have filled : body ≠ [] := by
      rintro rfl
      simp at digits
    intro rest
    exact other filled (List.all_eq_true.mpr (List.dropWhile_eq_nil_iff.mp rest))

theorem written_digits {digits : List UInt8} (some : digits ≠ [])
    (numeral : digits.all isDigit = true) : written digits = .some (decimal digits : Int) := by
  obtain ⟨first, rest, rfl⟩ := List.exists_cons_of_ne_nil some
  have digit : isDigit first = true := List.all_eq_true.mp numeral first List.mem_cons_self
  have range : 48 ≤ first ∧ first ≤ 57 := by simpa [isDigit] using digit
  have noSign : first ≠ 45 ∧ first ≠ 43 := by
    constructor <;> rintro rfl <;> exact absurd range.1 (by decide)
  have noBlank : isSpace first = false := by
    have above : ¬ first ≤ 13 := fun small =>
      absurd (UInt8.le_trans range.1 small) (by decide)
    have other : first ≠ 32 := by
      rintro rfl
      exact absurd range.1 (by decide)
    simp [isSpace, above, other]
  have body : signed ((first :: rest).dropWhile isSpace) = (false, first :: rest) := by
    simp [signed, noBlank, noSign]
  rw [written, body]
  simp [numeral]

theorem decimal_lt {digits : List UInt8} (numeral : digits.all isDigit = true) :
    decimal digits < 10 ^ digits.length := by
  have fold (value : Nat) :
      digits.foldl (fun value digit => value * 10 + (digit.toNat - 48)) value <
        (value + 1) * 10 ^ digits.length := by
    induction digits generalizing value with
    | nil => simp
    | cons digit rest ih =>
      simp only [List.all_cons, Bool.and_eq_true] at numeral
      have range : 48 ≤ digit ∧ digit ≤ 57 := by simpa [isDigit] using numeral.1
      have small : digit.toNat ≤ 57 := UInt8.le_iff_toNat_le.mp range.2
      refine (ih numeral.2 _).trans_le ?_
      rw [List.length_cons, Nat.pow_succ', ← Nat.mul_assoc]
      exact Nat.mul_le_mul_right _ (by dsimp only; omega)
  simpa [decimal] using fold 0

def FitsInt (value : Int) : Prop := -2147483648 ≤ value ∧ value ≤ 2147483647

instance : DecidablePred FitsInt := fun _ => inferInstanceAs (Decidable (_ ∧ _))

theorem toInt_of_fits {value : Int} (fits : FitsInt value) : toInt value = value := by
  obtain ⟨low, high⟩ := fits
  unfold toInt
  rw [Int.bmod_def]
  split <;> omega

theorem toInt_saturate (value : Int) : toInt (saturate value) = value ↔ FitsInt value := by
  unfold toInt saturate FitsInt
  rw [Int.bmod_def]
  constructor
  · intro same
    split at same <;> omega
  · rintro ⟨low, high⟩
    rw [max_eq_right (by omega), min_eq_right (by omega)]
    split <;> omega

end Akiso.Strtol
