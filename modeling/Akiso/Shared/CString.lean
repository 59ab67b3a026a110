import Mathlib.Data.List.TakeWhile

set_option autoImplicit false

/-!
# Strings of C in a list of bytes

A memory area is the list of its bytes. A string starts at an offset and ends before the first
NUL. `terminated` lays strings out one after the other, and `offsetsFrom` is where they start.
-/

namespace Akiso.CString

def cstring (memory : List UInt8) : List UInt8 :=
  memory.takeWhile fun byte => byte != 0

def stringAt (memory : List UInt8) (offset : Nat) : List UInt8 :=
  cstring (memory.drop offset)

def strlen (memory : List UInt8) : Nat :=
  (cstring memory).length

def strncpy (source : List UInt8) (size : Nat) : List UInt8 :=
  source.take size ++ List.replicate (size - source.length) 0

def toSize (value : Int) : Nat :=
  (value % 18446744073709551616).toNat

def terminated (strings : List (List UInt8)) : List UInt8 :=
  strings.flatMap fun string => string ++ [0]

def offsetsFrom : Nat → List (List UInt8) → List Nat
  | _, [] => []
  | base, string :: rest => base :: offsetsFrom (base + string.length + 1) rest

theorem toSize_natCast (value : Nat) (small : value < 18446744073709551616) :
    toSize value = value := by
  unfold toSize
  omega

theorem cstring_cut (text rest : List UInt8) : cstring (text ++ 0 :: rest) = cstring text := by
  induction text with
  | nil => simp [cstring]
  | cons byte text ih =>
    unfold cstring at ih ⊢
    rw [List.cons_append, List.takeWhile_cons, List.takeWhile_cons, ih]

theorem cstring_eq_self {text : List UInt8} (clean : 0 ∉ text) : cstring text = text := by
  apply List.takeWhile_eq_self_iff.mpr
  intro byte member
  rw [bne_iff_ne]
  rintro rfl
  exact clean member

@[simp] theorem cstring_append_nul (string rest : List UInt8) (clean : 0 ∉ string) :
    cstring (string ++ 0 :: rest) = string := by
  rw [cstring_cut, cstring_eq_self clean]

theorem cstring_clean (memory : List UInt8) : 0 ∉ cstring memory := by
  intro member
  have plain := List.mem_takeWhile_imp member
  simp at plain

@[simp] theorem terminated_append (first second : List (List UInt8)) :
    terminated (first ++ second) = terminated first ++ terminated second := by
  simp [terminated]

@[simp] theorem terminated_singleton (string : List UInt8) :
    terminated [string] = string ++ [0] := by
  simp [terminated]

theorem offsetsFrom_append (base : Nat) (strings : List (List UInt8)) (last : List UInt8) :
    offsetsFrom base (strings ++ [last]) =
      offsetsFrom base strings ++ [base + (terminated strings).length] := by
  induction strings generalizing base with
  | nil => simp [offsetsFrom, terminated]
  | cons string rest ih =>
    simp only [List.cons_append, offsetsFrom, ih]
    simp [terminated]
    omega

@[simp] theorem length_offsetsFrom (base : Nat) (strings : List (List UInt8)) :
    (offsetsFrom base strings).length = strings.length := by
  induction strings generalizing base with
  | nil => rfl
  | cons string rest ih => simp [offsetsFrom, ih]

theorem map_stringAt_offsetsFrom (before : List UInt8) (strings : List (List UInt8))
    (after : List UInt8) (clean : ∀ string ∈ strings, 0 ∉ string) :
    (offsetsFrom before.length strings).map
      (stringAt (before ++ terminated strings ++ after)) = strings := by
  induction strings generalizing before with
  | nil => rfl
  | cons string rest ih =>
    have shift : before.length + string.length + 1 = (before ++ string ++ [0]).length := by
      simp [Nat.add_assoc]
    have tail := ih (before ++ string ++ [0]) fun other member => clean other (by simp [member])
    have head :
        stringAt (before ++ terminated (string :: rest) ++ after) before.length = string := by
      simp only [stringAt, List.append_assoc, List.drop_left]
      simpa [terminated] using
        cstring_append_nul string (terminated rest ++ after) (clean string (by simp))
    rw [offsetsFrom, List.map_cons, head, shift]
    congr 1
    simpa [terminated] using tail

structure Separate (memory : List UInt8) (offsets : List Nat) : Prop where
  ended : ∀ offset ∈ offsets, memory[offset + (stringAt memory offset).length]? = some 0
  apart : offsets.Pairwise fun first second => first + (stringAt memory first).length < second

theorem stringAt_terminated (before : List UInt8) {string : List UInt8} (rest : List UInt8)
    (clean : 0 ∉ string) : stringAt (before ++ (string ++ 0 :: rest)) before.length = string := by
  rw [stringAt, List.drop_left, cstring_append_nul string rest clean]

theorem le_of_mem_offsetsFrom {base offset : Nat} {strings : List (List UInt8)}
    (member : offset ∈ offsetsFrom base strings) : base ≤ offset := by
  induction strings generalizing base with
  | nil => simp [offsetsFrom] at member
  | cons string rest ih =>
    rcases List.mem_cons.mp member with rfl | later
    · exact Nat.le_refl _
    · have := ih later
      omega

theorem separate_offsetsFrom (before : List UInt8) (strings : List (List UInt8))
    (after : List UInt8) (clean : ∀ string ∈ strings, 0 ∉ string) :
    Separate (before ++ terminated strings ++ after) (offsetsFrom before.length strings) := by
  induction strings generalizing before with
  | nil => exact ⟨by simp [offsetsFrom], by simp [offsetsFrom]⟩
  | cons string rest ih =>
    have memory : before ++ terminated (string :: rest) ++ after =
        before ++ (string ++ 0 :: (terminated rest ++ after)) := by
      simp [terminated]
    have moved : before ++ terminated (string :: rest) ++ after =
        (before ++ string ++ [0]) ++ terminated rest ++ after := by
      simp [terminated]
    have next : (before ++ string ++ [0]).length = before.length + string.length + 1 := by
      simp [Nat.add_assoc]
    have tail := ih (before ++ string ++ [0]) fun other member => clean other (by simp [member])
    have head := stringAt_terminated before (terminated rest ++ after) (clean string (by simp))
    rw [← moved, next] at tail
    rw [← memory] at head
    refine ⟨fun offset member => ?_, List.pairwise_cons.mpr ⟨fun offset later => ?_, tail.apart⟩⟩
    · rcases List.mem_cons.mp member with rfl | later
      · rw [head, memory, List.getElem?_append_right (by omega)]
        simp
      · exact tail.ended offset later
    · have least := le_of_mem_offsetsFrom later
      rw [head]
      omega

end Akiso.CString
