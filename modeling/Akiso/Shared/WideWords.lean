import Akiso.Shared.Subroutines

set_option autoImplicit false

/-!
# Arithmetic on words byte by byte

What a processor of bytes computes on the halves of a word, with the carry between them.
-/

namespace Akiso.Mos6502

variable (highByte lowByte highOther lowOther : Byte) (carry : Bool)

theorem append_shiftLeft :
    (highByte ++ lowByte) <<< 1 =
      (highByte <<< 1 ||| (BitVec.ofBool lowByte.msb).setWidth 8) ++ (lowByte <<< 1) := by
  have disjoint (bit : Bool) (byte : Byte) : byte <<< 1 ||| (BitVec.ofBool bit).setWidth 8 =
      byte <<< 1 + (BitVec.ofBool bit).setWidth 8 := by
    revert bit byte
    decide
  rw [disjoint, BitVec.msb_eq_decide]
  apply BitVec.eq_of_toNat_eq
  have := highByte.isLt
  have := lowByte.isLt
  by_cases carried : 128 ≤ lowByte.toNat <;>
    simp [BitVec.toNat_add, Nat.shiftLeft_eq, carried] <;> omega

theorem append_shiftRight :
    (highByte ++ lowByte) >>> 1 =
      (highByte >>> 1) ++
        (lowByte >>> 1 ||| (BitVec.ofBool (highByte.getLsbD 0)).setWidth 8 <<< 7) := by
  have disjoint (bit : Bool) (byte : Byte) :
      byte >>> 1 ||| (BitVec.ofBool bit).setWidth 8 <<< 7 =
        byte >>> 1 + (BitVec.ofBool bit).setWidth 8 <<< 7 := by
    revert bit byte
    decide
  have odd : highByte.getLsbD 0 = decide (highByte.toNat % 2 = 1) := by
    simp [BitVec.getLsbD, Nat.testBit_zero]
  rw [disjoint, odd]
  apply BitVec.eq_of_toNat_eq
  have := highByte.isLt
  have := lowByte.isLt
  by_cases carried : highByte.toNat % 2 = 1 <;>
    simp [BitVec.toNat_add, Nat.shiftRight_eq_div_pow, carried] <;> omega

def lowSum : Nat :=
  lowByte.toNat + lowOther.toNat + carry.toNat

def highSum : Nat :=
  highByte.toNat + highOther.toNat + (decide (256 ≤ lowSum lowByte lowOther carry)).toNat

theorem highSum_eq : highSum highByte lowByte highOther lowOther carry =
    highByte.toNat + highOther.toNat + lowSum lowByte lowOther carry / 256 := by
  have := lowByte.isLt
  have := lowOther.isLt
  have := carry.toNat_le
  have few : lowSum lowByte lowOther carry < 512 := by
    rw [lowSum]
    omega
  rw [highSum]
  by_cases carried : 256 ≤ lowSum lowByte lowOther carry
  · rw [decide_eq_true carried, Bool.toNat_true]
    omega
  · rw [decide_eq_false carried, Bool.toNat_false]
    omega

theorem append_sums :
    BitVec.ofNat 8 (highSum highByte lowByte highOther lowOther carry) ++
      BitVec.ofNat 8 (lowSum lowByte lowOther carry) =
      BitVec.ofNat 16 ((highByte ++ lowByte).toNat + (highOther ++ lowOther).toNat +
        carry.toNat) := by
  apply BitVec.eq_of_toNat_eq
  simp only [highSum_eq, lowSum, toNat_append_bytes, BitVec.toNat_ofNat]
  omega

theorem carried_iff :
    256 ≤ highSum highByte lowByte highOther lowOther carry ↔
      65536 ≤ (highByte ++ lowByte).toNat + (highOther ++ lowOther).toNat + carry.toNat := by
  simp only [highSum_eq, lowSum, toNat_append_bytes]
  omega

theorem append_add :
    (highByte ++ lowByte) + (highOther ++ lowOther) =
      BitVec.ofNat 8 (highSum highByte lowByte highOther lowOther false) ++
        BitVec.ofNat 8 (lowSum lowByte lowOther false) := by
  rw [append_sums]
  apply BitVec.eq_of_toNat_eq
  simp only [BitVec.toNat_add, BitVec.toNat_ofNat, Bool.toNat_false, Nat.add_zero]

theorem add_carried_iff :
    256 ≤ highSum highByte lowByte highOther lowOther false ↔
      65536 ≤ (highByte ++ lowByte).toNat + (highOther ++ lowOther).toNat := by
  rw [carried_iff, Bool.toNat_false, Nat.add_zero]

theorem toNat_complement (byte : Byte) : (~~~byte).toNat = 255 - byte.toNat := by
  simp

theorem append_sub :
    (highByte ++ lowByte) - (highOther ++ lowOther) =
      BitVec.ofNat 8 (highSum highByte lowByte (~~~highOther) (~~~lowOther) true) ++
        BitVec.ofNat 8 (lowSum lowByte (~~~lowOther) true) := by
  rw [append_sums]
  apply BitVec.eq_of_toNat_eq
  have := highByte.isLt
  have := lowByte.isLt
  have := highOther.isLt
  have := lowOther.isLt
  simp only [toNat_append_bytes, toNat_complement, BitVec.toNat_ofNat, BitVec.toNat_sub,
    Bool.toNat_true]
  omega

theorem not_borrowed_iff :
    256 ≤ highSum highByte lowByte (~~~highOther) (~~~lowOther) true ↔
      (highOther ++ lowOther).toNat ≤ (highByte ++ lowByte).toNat := by
  rw [carried_iff]
  have := highOther.isLt
  have := lowOther.isLt
  simp only [toNat_append_bytes, toNat_complement, Bool.toNat_true]
  omega

end Akiso.Mos6502
