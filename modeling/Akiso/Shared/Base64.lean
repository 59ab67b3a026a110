import Mathlib.Data.List.Basic

set_option autoImplicit false

namespace Akiso.Base64

def padding : UInt8 := 61

def character (sextet : Nat) : UInt8 :=
  if sextet < 26 then UInt8.ofNat (65 + sextet)
  else if sextet < 52 then UInt8.ofNat (97 + (sextet - 26))
  else if sextet < 62 then UInt8.ofNat (48 + (sextet - 52))
  else if sextet = 62 then 43
  else 47

def sextet (character : UInt8) : Nat :=
  if character = 47 then 63
  else if character = 43 then 62
  else if character ≤ 57 then character.toNat - 48 + 52
  else if character ≤ 90 then character.toNat - 65
  else character.toNat - 97 + 26

def alphabet : List UInt8 := padding :: (List.range 64).map character

theorem sextet_character : ∀ index < 64, sextet (character index) = index := by decide

theorem character_ne_padding : ∀ index < 64, character index ≠ padding := by decide

theorem character_mem_alphabet {index : Nat} (small : index < 64) : character index ∈ alphabet :=
  List.mem_cons_of_mem _ (List.mem_map.mpr ⟨index, List.mem_range.mpr small, rfl⟩)

def encode : List UInt8 → List UInt8
  | [] => []
  | [first] =>
    [character (first.toNat / 4), character (first.toNat % 4 * 16), padding, padding]
  | [first, second] =>
    [character (first.toNat / 4), character (first.toNat % 4 * 16 + second.toNat / 16),
      character (second.toNat % 16 * 4), padding]
  | first :: second :: third :: rest =>
    character (first.toNat / 4) :: character (first.toNat % 4 * 16 + second.toNat / 16) ::
      character (second.toNat % 16 * 4 + third.toNat / 64) :: character (third.toNat % 64) ::
      encode rest

def decode : List UInt8 → List UInt8
  | first :: second :: third :: fourth :: rest =>
    let high := UInt8.ofNat (sextet first * 4 + sextet second / 16)
    let middle := UInt8.ofNat (sextet second % 16 * 16 + sextet third / 4)
    let low := UInt8.ofNat (sextet third % 4 * 64 + sextet fourth)
    if third = padding then [high]
    else if fourth = padding then [high, middle]
    else high :: middle :: low :: decode rest
  | _ => []

theorem ofNat_of_eq {byte : UInt8} {value : Nat} (same : value = byte.toNat) :
    UInt8.ofNat value = byte := by
  rw [same, UInt8.ofNat_toNat]

theorem decode_encode (bytes : List UInt8) : decode (encode bytes) = bytes := by
  fun_induction encode bytes with
  | case1 => rfl
  | case2 first =>
    have bound := first.toNat_lt
    have high := sextet_character (first.toNat / 4) (by omega)
    have carry := sextet_character (first.toNat % 4 * 16) (by omega)
    have byte : UInt8.ofNat (first.toNat / 4 * 4 + first.toNat % 4 * 16 / 16) = first :=
      ofNat_of_eq (by omega)
    simp only [decode, high, carry, if_true, byte]
  | case3 first second =>
    have bound := first.toNat_lt
    have limit := second.toNat_lt
    have high := sextet_character (first.toNat / 4) (by omega)
    have middle := sextet_character (first.toNat % 4 * 16 + second.toNat / 16) (by omega)
    have carry := sextet_character (second.toNat % 16 * 4) (by omega)
    have present := character_ne_padding (second.toNat % 16 * 4) (by omega)
    have byte : UInt8.ofNat (first.toNat / 4 * 4 +
        (first.toNat % 4 * 16 + second.toNat / 16) / 16) = first := ofNat_of_eq (by omega)
    have next : UInt8.ofNat ((first.toNat % 4 * 16 + second.toNat / 16) % 16 * 16 +
        second.toNat % 16 * 4 / 4) = second := ofNat_of_eq (by omega)
    simp only [decode, high, middle, carry, present, if_false, if_true, byte, next]
  | case4 first second third rest ih =>
    have bound := first.toNat_lt
    have limit := second.toNat_lt
    have width := third.toNat_lt
    have high := sextet_character (first.toNat / 4) (by omega)
    have middle := sextet_character (first.toNat % 4 * 16 + second.toNat / 16) (by omega)
    have low := sextet_character (second.toNat % 16 * 4 + third.toNat / 64) (by omega)
    have last := sextet_character (third.toNat % 64) (by omega)
    have present := character_ne_padding (second.toNat % 16 * 4 + third.toNat / 64) (by omega)
    have whole := character_ne_padding (third.toNat % 64) (by omega)
    have byte : UInt8.ofNat (first.toNat / 4 * 4 +
        (first.toNat % 4 * 16 + second.toNat / 16) / 16) = first := ofNat_of_eq (by omega)
    have next : UInt8.ofNat ((first.toNat % 4 * 16 + second.toNat / 16) % 16 * 16 +
        (second.toNat % 16 * 4 + third.toNat / 64) / 4) = second := ofNat_of_eq (by omega)
    have final : UInt8.ofNat ((second.toNat % 16 * 4 + third.toNat / 64) % 4 * 64 +
        third.toNat % 64) = third := ofNat_of_eq (by omega)
    simp only [decode, high, middle, low, last, present, whole, if_false, byte, next, final, ih]

theorem mem_alphabet (bytes : List UInt8) : ∀ byte ∈ encode bytes, byte ∈ alphabet := by
  have pad : padding ∈ alphabet := List.mem_cons_self
  fun_induction encode bytes with
  | case1 => simp
  | case2 first =>
    have bound := first.toNat_lt
    have high := character_mem_alphabet (show first.toNat / 4 < 64 by omega)
    have carry := character_mem_alphabet (show first.toNat % 4 * 16 < 64 by omega)
    simp [high, carry, pad]
  | case3 first second =>
    have bound := first.toNat_lt
    have limit := second.toNat_lt
    have high := character_mem_alphabet (show first.toNat / 4 < 64 by omega)
    have middle := character_mem_alphabet
      (show first.toNat % 4 * 16 + second.toNat / 16 < 64 by omega)
    have carry := character_mem_alphabet (show second.toNat % 16 * 4 < 64 by omega)
    simp [high, middle, carry, pad]
  | case4 first second third rest ih =>
    have bound := first.toNat_lt
    have limit := second.toNat_lt
    have width := third.toNat_lt
    have high := character_mem_alphabet (show first.toNat / 4 < 64 by omega)
    have middle := character_mem_alphabet
      (show first.toNat % 4 * 16 + second.toNat / 16 < 64 by omega)
    have low := character_mem_alphabet
      (show second.toNat % 16 * 4 + third.toNat / 64 < 64 by omega)
    have last := character_mem_alphabet (show third.toNat % 64 < 64 by omega)
    simp only [List.forall_mem_cons]
    exact ⟨high, middle, low, last, ih⟩

theorem length_encode (bytes : List UInt8) :
    (encode bytes).length = 4 * ((bytes.length + 2) / 3) := by
  fun_induction encode bytes with
  | case1 => rfl
  | case2 first => simp
  | case3 first second => simp
  | case4 first second third rest ih =>
    simp only [List.length_cons, ih]
    omega

example : encode [203, 10, 212, 207] = [121, 119, 114, 85, 122, 119, 61, 61] := by decide

end Akiso.Base64
