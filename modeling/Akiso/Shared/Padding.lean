import Mathlib.Data.List.Basic

set_option autoImplicit false

namespace Akiso.Padding

-- A message is filled up to whole blocks of 16 bytes, each byte added being their number.
def padding (length : Nat) : Nat := 16 - length % 16

theorem padding_pos (length : Nat) : 0 < padding length := by
  simp only [padding]
  omega

theorem padding_lt (length : Nat) : padding length < 256 := by
  simp only [padding]
  omega

def pad (message : List UInt8) : List UInt8 :=
  message ++ List.replicate (padding message.length) (UInt8.ofNat (padding message.length))

def unpad (padded : List UInt8) : Option (List UInt8) :=
  let message := padded.take (padded.length - (padded.getLastD 0).toNat)
  if pad message = padded then some message else none

theorem length_pad (message : List UInt8) :
    (pad message).length = 16 * (message.length / 16 + 1) := by
  simp only [pad, padding, List.length_append, List.length_replicate]
  omega

theorem getLastD_pad (message : List UInt8) :
    (pad message).getLastD 0 = UInt8.ofNat (padding message.length) := by
  obtain ⟨count, shape⟩ := Nat.exists_eq_succ_of_ne_zero (Nat.ne_of_gt (padding_pos message.length))
  simp [pad, shape, List.replicate_succ']

theorem unpad_pad (message : List UInt8) : unpad (pad message) = some message := by
  have fits : message.length + padding message.length - padding message.length = message.length :=
    Nat.add_sub_cancel _ _
  have original : (pad message).take
      ((pad message).length - ((pad message).getLastD 0).toNat) = message := by
    rw [getLastD_pad, UInt8.toNat_ofNat_of_lt' (padding_lt _)]
    simp only [pad, List.length_append, List.length_replicate, fits, List.take_left]
  unfold unpad
  simp only [original, if_true]

theorem unpad_zeros (length : Nat) : unpad (List.replicate length 0) = none := by
  unfold unpad
  dsimp only
  rw [if_neg]
  intro padded
  have last := congrArg (List.getLastD · 0) padded
  simp only [getLastD_pad] at last
  have zero : (List.replicate length (0 : UInt8)).getLastD 0 = 0 := by
    cases length with
    | zero => rfl
    | succ length => simp [List.replicate_succ']
  rw [zero] at last
  have value := congrArg UInt8.toNat last
  rw [UInt8.toNat_ofNat_of_lt' (padding_lt _)] at value
  exact absurd value (Nat.ne_of_gt (padding_pos _))

end Akiso.Padding
