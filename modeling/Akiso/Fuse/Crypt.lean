import Akiso.Shared.Base64
import Akiso.Shared.CString
import Akiso.Shared.Padding

set_option autoImplicit false

namespace Akiso.Fuse

open CString

/-- AES-128-CBC with the key and the iv of the mount; none is an error of BIO_read. -/
structure Aes where
  encrypt : List UInt8 → List UInt8
  decrypt : List UInt8 → Option (List UInt8)
  length : ∀ plaintext, (encrypt plaintext).length = 16 * (plaintext.length / 16 + 1)
  inverse : ∀ plaintext, decrypt (encrypt plaintext) = some plaintext

structure Codec where
  encode : List UInt8 → List UInt8
  decode : List UInt8 → List UInt8
  length : ∀ data, (encode data).length = 4 * ((data.length + 2) / 3)
  alphabet : ∀ data, ∀ byte ∈ encode data, byte ∈ Base64.alphabet
  inverse : ∀ data, decode (encode data) = data

def standardCodec : Codec :=
  { encode := Base64.encode, decode := Base64.decode, length := Base64.length_encode
    alphabet := Base64.mem_alphabet, inverse := Base64.decode_encode }

def paddingAes : Aes :=
  { encrypt := Padding.pad, decrypt := Padding.unpad, length := Padding.length_pad
    inverse := Padding.unpad_pad }

def slash : UInt8 := 47

def caret : UInt8 := 94

def dot : UInt8 := 46

-- strn_replace on the memory its argument points to.
def strnReplace : List UInt8 → Nat → UInt8 → UInt8 → List UInt8
  | [], _, _, _ => []
  | byte :: rest, n, original, replacement =>
    if byte = 0 then byte :: rest
    else
      match n with
      | 0 => byte :: rest
      | n + 1 => (if byte = original then replacement else byte) ::
          strnReplace rest n original replacement

-- my_encrypt_base64: what it stores, with the terminating NUL, and the length it returns.
def myEncryptBase64 (aes : Aes) (codec : Codec) (plaintext : List UInt8) : List UInt8 × Nat :=
  let data := codec.encode (aes.encrypt plaintext)
  (strnReplace (data ++ [0]) data.length slash caret, data.length)

def myDecryptBase64 (aes : Aes) (codec : Codec) (ciphertext : List UInt8) (length : Nat) :
    Option (List UInt8) :=
  let replaced := strnReplace ciphertext length caret slash
  (aes.decrypt (codec.decode (replaced.take length))).map fun plaintext => plaintext.take 2048

def myEncryptBinary (aes : Aes) (plaintext : List UInt8) : List UInt8 :=
  aes.encrypt plaintext

def myDecryptBinary (aes : Aes) (ciphertext : List UInt8) : Option (List UInt8) :=
  (aes.decrypt ciphertext).map fun plaintext => plaintext.take 8192

def encryptedName (aes : Aes) (codec : Codec) (name : List UInt8) : List UInt8 :=
  (codec.encode (aes.encrypt name)).map fun byte => if byte = slash then caret else byte

theorem strnReplace_all (original replacement : UInt8) (data rest : List UInt8) (clean : 0 ∉ data) :
    strnReplace (data ++ 0 :: rest) data.length original replacement =
      (data.map fun byte => if byte = original then replacement else byte) ++ 0 :: rest := by
  induction data with
  | nil => simp [strnReplace]
  | cons byte data ih =>
    simp only [List.mem_cons, not_or] at clean
    have present : byte ≠ 0 := Ne.symm clean.1
    simp [strnReplace, present, ih clean.2]

theorem strnReplace_list {original replacement : UInt8} (data : List UInt8) (clean : 0 ∉ data) :
    strnReplace data data.length original replacement =
      data.map fun byte => if byte = original then replacement else byte := by
  induction data with
  | nil => rfl
  | cons byte data ih =>
    simp only [List.mem_cons, not_or] at clean
    have present : byte ≠ 0 := Ne.symm clean.1
    simp [strnReplace, present, ih clean.2]

theorem replaced_restored {data : List UInt8} (plain : caret ∉ data) :
    (data.map fun byte => if byte = slash then caret else byte).map
      (fun byte => if byte = caret then slash else byte) = data := by
  rw [List.map_map]
  apply (List.map_congr_left _).trans (List.map_id _)
  intro byte member
  have other : byte ≠ caret := fun same => plain (same ▸ member)
  by_cases replaced : byte = slash
  · simp [replaced]
  · simp [replaced, other]

theorem alphabet_clean : ∀ byte ∈ Base64.alphabet, byte ≠ 0 ∧ byte ≠ caret ∧ byte ≠ dot := by
  decide +kernel

section

variable (aes : Aes) (codec : Codec) (name : List UInt8)

theorem encoded_clean : 0 ∉ codec.encode (aes.encrypt name) := fun member =>
  (alphabet_clean 0 (codec.alphabet _ 0 member)).1 rfl

theorem encryptedName_clean : ∀ byte ∈ encryptedName aes codec name,
    byte ≠ 0 ∧ byte ≠ slash ∧ byte ≠ dot := by
  intro byte member
  obtain ⟨encoded, found, same⟩ := List.mem_map.mp member
  obtain ⟨present, _, plain⟩ := alphabet_clean encoded (codec.alphabet _ encoded found)
  split at same
  next => exact same ▸ (by decide)
  next other => exact same ▸ ⟨present, other, plain⟩

theorem encryptedName_length :
    (encryptedName aes codec name).length = 4 * ((16 * (name.length / 16 + 1) + 2) / 3) := by
  simp [encryptedName, codec.length, aes.length]

theorem encryptedName_ne_nil : encryptedName aes codec name ≠ [] := by
  intro empty
  have length := encryptedName_length aes codec name
  rw [empty, List.length_nil] at length
  omega

theorem encryptedName_restored : (encryptedName aes codec name).map
    (fun byte => if byte = caret then slash else byte) = codec.encode (aes.encrypt name) := by
  apply replaced_restored
  intro member
  exact (alphabet_clean caret (codec.alphabet _ caret member)).2.1 rfl

theorem encryptedName_injective : Function.Injective (encryptedName aes codec) := by
  intro first second same
  have encoded : codec.encode (aes.encrypt first) = codec.encode (aes.encrypt second) := by
    rw [← encryptedName_restored, same, encryptedName_restored]
  have encrypted : aes.encrypt first = aes.encrypt second := by
    rw [← codec.inverse (aes.encrypt first), encoded, codec.inverse]
  apply Option.some.inj
  rw [← aes.inverse first, encrypted, aes.inverse]

theorem myDecryptBase64_encryptedName :
    myDecryptBase64 aes codec (encryptedName aes codec name)
      (encryptedName aes codec name).length = some (name.take 2048) := by
  have clean : 0 ∉ encryptedName aes codec name := fun member =>
    (encryptedName_clean aes codec name 0 member).1 rfl
  have whole : (codec.encode (aes.encrypt name)).take (encryptedName aes codec name).length =
      codec.encode (aes.encrypt name) := List.take_of_length_le (by simp [encryptedName])
  simp only [myDecryptBase64, strnReplace_list _ clean, encryptedName_restored, whole,
    codec.inverse, aes.inverse, Option.map_some]

end

end Akiso.Fuse
