import Akiso.Shell.Parser
import Akiso.Shell.Tokenizer

set_option autoImplicit false

namespace Akiso.Shell

open CString Escape Strtol

def redirectMark (isOut : Bool) : UInt8 := if isOut then greater else less

def leftNumber (isOut : Bool) (left : List UInt8) : Option Int :=
  if left = [] then some (if isOut then 1 else 0) else written left

inductive Target where
  | file
  | descriptor (number : Int)
  deriving DecidableEq, Repr

def targetOf : List UInt8 → Option Target
  | [] => none
  | first :: number => if first = ampersand then (written number).map .descriptor else some .file

-- right_fd: a file and a number share the range of an int.
def Target.rightFd : Target → Int
  | .file => -1
  | .descriptor number => toInt (saturate number)

theorem written_nil : written [] = none := by decide

theorem checkRight_eq (right : List UInt8) (result : Int → Redirect) :
    (match right with
      | [] => none
      | first :: number =>
        if first = ampersand then
          if number = [] then none
          else if (strtol number).2 = [] then some (result (toInt (strtol number).1)) else none
        else some (result (-1))) =
      (targetOf right).map fun target => result target.rightFd := by
  cases right with
  | nil => rfl
  | cons first number =>
    by_cases duplicates : first = ampersand
    next =>
      by_cases blank : number = []
      next => simp [targetOf, duplicates, blank, written_nil]
      next =>
        cases numeral : written number with
        | none =>
          simp [targetOf, duplicates, blank, numeral, strtol_of_not_written _ blank numeral]
        | some value =>
          simp [targetOf, duplicates, blank, numeral, strtol_of_written _ value numeral,
            Target.rightFd]
    next => simp [targetOf, duplicates, Target.rightFd]

theorem checkRedirect_eq (redirect : Redirect) :
    checkRedirect redirect =
      (leftNumber redirect.isOut redirect.left).bind fun number =>
        (targetOf redirect.right).map fun target =>
          { redirect with leftFd := toInt (saturate number), rightFd := target.rightFd } := by
  have standard : ∀ isOut : Bool,
      toInt (saturate (if isOut then 1 else 0)) = if isOut then 1 else 0 := by decide
  obtain ⟨isOut, left, leftFd, right, rightFd⟩ := redirect
  by_cases blank : left = []
  next =>
    simp only [checkRedirect, leftNumber, blank, if_true, Option.bind_eq_bind, Option.bind_some,
      standard]
    exact checkRight_eq right fun rightFd =>
      { isOut, left := [], leftFd := if isOut then 1 else 0, right, rightFd }
  next =>
    simp only [checkRedirect, leftNumber, blank, if_false, Option.bind_eq_bind]
    cases numeral : written left with
    | none => simp [strtol_of_not_written _ blank numeral]
    | some number =>
      simp only [strtol_of_written _ number numeral, if_true, Option.bind_some]
      exact checkRight_eq right fun rightFd =>
        { isOut, left, leftFd := toInt (saturate number), right, rightFd }

-- The fields that the token itself does not decide are -1 until check_redirect sets them.
def redirectOf (isOut : Bool) : List (List UInt8) → Option Redirect
  | [left, right] => checkRedirect { isOut, left, leftFd := -1, right, rightFd := -1 }
  | _ => none

theorem parseRedirectWith_eq (tokenizer : Tokenizer) (str : List UInt8) (isOut : Bool) :
    parseRedirectWith tokenizer str isOut =
      (counted (tokenizer str [redirectMark isOut] true)).map (redirectOf isOut) := by
  have single : [if isOut then greater else less] = [redirectMark isOut] := rfl
  rw [parseRedirectWith, single]
  cases counted (tokenizer str [redirectMark isOut] true) with
  | error => rfl
  | ok sides => rcases sides with _ | ⟨left, _ | ⟨right, _ | _⟩⟩ <;> rfl

theorem parseRedirect_eq (str : List UInt8) (isOut : Bool) (clean : 0 ∉ str) :
    parseRedirect str isOut =
      (counted (verdict (referenceSplit [redirectMark isOut] true str))).map
        (redirectOf isOut) := by
  have plain : backslash ∉ [redirectMark isOut] := by cases isOut <;> decide
  rw [parseRedirect, parseRedirectWith_eq, parseTokens_cutText _ _ _ clean, cutText_plain plain]

theorem counted_verdict_pair (sides : List (List UInt8)) (left right : List UInt8) :
    counted (verdict sides) = .ok [left, right] ↔ sides = [left, right] := by
  unfold verdict
  constructor
  · split
    next => exact fun same => Except.ok.inj same
    next => split <;> simp [counted]
  · rintro rfl
    rfl

theorem parseRedirect_accepts_iff (str : List UInt8) (isOut : Bool) (redirect : Redirect)
    (clean : 0 ∉ str) :
    parseRedirect str isOut = .ok (some redirect) ↔
      ∃ left right number target,
        referenceSplit [redirectMark isOut] true str = [left, right] ∧
        leftNumber isOut left = some number ∧ targetOf right = some target ∧
        redirect = { isOut, left, leftFd := toInt (saturate number), right,
                     rightFd := target.rightFd } := by
  rw [parseRedirect_eq str isOut clean]
  constructor
  · intro accepted
    cases stored : counted (verdict (referenceSplit [redirectMark isOut] true str)) with
    | error stop => simp [stored, Except.map] at accepted
    | ok sides =>
      simp only [stored, Except.map, Except.ok.injEq] at accepted
      unfold redirectOf at accepted
      split at accepted
      next left right =>
        simp only [checkRedirect_eq, Option.bind_eq_some_iff, Option.map_eq_some_iff] at accepted
        obtain ⟨number, numeral, target, aims, rfl⟩ := accepted
        exact ⟨left, right, number, target, (counted_verdict_pair _ _ _).mp stored, numeral, aims,
          rfl⟩
      next => simp at accepted
  · rintro ⟨left, right, number, target, sides, numeral, aims, rfl⟩
    rw [(counted_verdict_pair _ _ _).mpr sides]
    simp [Except.map, redirectOf, checkRedirect_eq, numeral, aims]

structure Numbered (str : List UInt8) (isOut : Bool) (redirect : Redirect) : Prop where
  sides : referenceSplit [redirectMark isOut] true str = [redirect.left, redirect.right]
  standard : redirect.left = [] → redirect.leftFd = if isOut then 1 else 0
  left : redirect.left ≠ [] → written redirect.left = some redirect.leftFd
  right : ∀ number, redirect.right = ampersand :: number → written number = some redirect.rightFd
  marker : redirect.rightFd = -1 ↔ redirect.right.head? ≠ some ampersand

def NumbersFit (str : List UInt8) (isOut : Bool) : Prop :=
  ∀ left right, referenceSplit [redirectMark isOut] true str = [left, right] →
    (∀ number, written left = some number → FitsInt number) ∧
    ∀ number value, right = ampersand :: number → written number = some value →
      FitsInt value ∧ value ≠ -1

theorem Target.rightFd_eq_iff (value : Int) :
    (Target.descriptor value).rightFd = value ↔ FitsInt value :=
  toInt_saturate value

theorem targetOf_rightFd (right : List UInt8) (target : Target)
    (aims : targetOf right = some target) :
    ((∀ number, right = ampersand :: number → written number = some target.rightFd) ∧
      (target.rightFd = -1 ↔ right.head? ≠ some ampersand)) ↔
    ∀ number value, right = ampersand :: number → written number = some value →
      FitsInt value ∧ value ≠ -1 := by
  cases right with
  | nil => simp [targetOf] at aims
  | cons first number =>
    by_cases duplicates : first = ampersand
    next =>
      simp only [targetOf, duplicates, if_true, Option.map_eq_some_iff] at aims
      obtain ⟨value, numeral, rfl⟩ := aims
      have narrowed := Target.rightFd_eq_iff value
      simp only [duplicates, List.cons.injEq, true_and, forall_eq', numeral, Option.some.injEq,
        List.head?_cons, ne_eq, not_true_eq_false, iff_false]
      constructor
      · rintro ⟨same, other⟩ _ read rfl numeral'
        obtain rfl : value = read := by simpa [numeral] using numeral'
        exact ⟨narrowed.mp same.symm, fun marker => other (same.symm.trans marker)⟩
      · intro both
        obtain ⟨fits, other⟩ := both number value rfl numeral
        have same := narrowed.mpr fits
        exact ⟨same.symm, fun marker => other (same.symm.trans marker)⟩
    next =>
      simp only [targetOf, duplicates, if_false, Option.some.injEq] at aims
      simp [← aims, duplicates, Target.rightFd]

/-- check_redirect narrows a long to an int without a check, and -1 is a number too. -/
theorem redirect_numbered (str : List UInt8) (isOut : Bool) (redirect : Redirect)
    (clean : 0 ∉ str) (accepted : parseRedirect str isOut = .ok (some redirect)) :
    Numbered str isOut redirect ↔ NumbersFit str isOut := by
  obtain ⟨left, right, number, target, sides, numeral, aims, rfl⟩ :=
    (parseRedirect_accepts_iff str isOut redirect clean).mp accepted
  have rightSide := targetOf_rightFd right target aims
  have leftSide : (left ≠ [] → written left = some (toInt (saturate number))) ↔
      ∀ value, written left = some value → FitsInt value := by
    by_cases blank : left = []
    next => simp [blank, written_nil]
    next =>
      rw [leftNumber, if_neg blank] at numeral
      simp [blank, numeral, ← toInt_saturate, eq_comm]
  have standard : left = [] → toInt (saturate number) = if isOut then 1 else 0 := by
    rintro rfl
    obtain rfl : (if isOut then 1 else 0) = number := by simpa [leftNumber] using numeral
    cases isOut <;> decide
  constructor
  · rintro ⟨-, -, leftNumeral, rightNumeral, marker⟩ left right same
    rw [sides] at same
    obtain ⟨rfl, rfl⟩ : _ = left ∧ _ = right := by simpa using same
    exact ⟨leftSide.mp leftNumeral, rightSide.mp ⟨rightNumeral, marker⟩⟩
  · intro fits
    obtain ⟨leftFits, rightFits⟩ := fits left right sides
    obtain ⟨rightNumeral, marker⟩ := rightSide.mpr rightFits
    exact ⟨sides, standard, leftSide.mpr leftFits, rightNumeral, marker⟩

theorem redirect_numbered_errorToOut :
    NumbersFit [50, 62, 38, 49] true ∧
      Numbered [50, 62, 38, 49] true
        { isOut := true, left := [50], leftFd := 2, right := [38, 49], rightFd := 1 } := by
  have fits : NumbersFit [50, 62, 38, 49] true := by
    intro left right sides
    obtain ⟨rfl, rfl⟩ : [50] = left ∧ [38, 49] = right := by
      have read : referenceSplit [redirectMark true] true [50, 62, 38, 49] = [[50], [38, 49]] := by
        decide
      simpa [read] using sides
    have two : written [50] = some 2 := by decide
    have one : written [49] = some 1 := by decide
    constructor
    · intro number numeral
      obtain rfl : 2 = number := by simpa [two] using numeral
      decide
    · intro number value same numeral
      obtain rfl : [49] = number := by simpa [ampersand] using same
      obtain rfl : 1 = value := by simpa [one] using numeral
      decide
  exact ⟨fits, (redirect_numbered _ true _ (by decide) (by decide)).mpr fits⟩

/-- `2>&4294967295` asks for a file, as `2>&-1` does. -/
theorem redirect_numbers_fail :
    ¬ ∀ str isOut redirect, 0 ∉ str → parseRedirect str isOut = .ok (some redirect) →
      Numbered str isOut redirect := by
  intro always
  have numbered := always [50, 62, 38, 52, 50, 57, 52, 57, 54, 55, 50, 57, 53] true
    { isOut := true, left := [50], leftFd := 2
      right := [38, 52, 50, 57, 52, 57, 54, 55, 50, 57, 53], rightFd := -1 }
    (by decide) (by decide)
  exact absurd (numbered.marker.mp rfl) (by decide)

end Akiso.Shell
