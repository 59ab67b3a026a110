import Akiso.Fuse.RealPath

set_option autoImplicit false

namespace Akiso.Fuse

open CString Escape

structure Mount where
  aes : Aes
  codec : Codec
  root : List UInt8
  rootClean : 0 ∉ root

def appendToken (mount : Mount) (state : OutBuff × Nat) (token : List UInt8) : OutBuff × Nat :=
  let (buff, currentLen) := state
  let buff := buff.store currentLen [slash]
  if special token then
    (buff.store (currentLen + 1) (token ++ [0]), currentLen + 1 + token.length)
  else
    let (stored, length) := myEncryptBase64 mount.aes mount.codec token
    (buff.store (currentLen + 1) stored, currentLen + 1 + length)

-- get_real_path: out_buff and the length returned.
def getRealPath (mount : Mount) (path : List UInt8) (outBuff : Nat → UInt8) : OutBuff × Nat :=
  let buff := OutBuff.store { bytes := outBuff, extent := 0 } 0 [0]
  if path.head? ≠ some slash then (buff, 0)
  else
    let buff := buff.store 0 (mount.root ++ [0])
    let (buff, currentLen) := (components path).foldl (appendToken mount) (buff, mount.root.length)
    let buff := buff.store (currentLen + 1) [0]
    (buff, buff.text.length)

def encodedComponent (mount : Mount) (token : List UInt8) : List UInt8 :=
  if special token then token else encryptedName mount.aes mount.codec token

def realPath (mount : Mount) (tokens : List (List UInt8)) : List UInt8 :=
  mount.root ++ tokens.flatMap fun token => slash :: encodedComponent mount token

section

variable (mount : Mount)

def Mount.cipher (name : List UInt8) : List UInt8 := mount.codec.encode (mount.aes.encrypt name)

theorem getRealPath_with (path : List UInt8) (outBuff : Nat → UInt8) :
    getRealPath mount path outBuff = getRealPathWith mount.cipher mount.root path outBuff := rfl

theorem realPath_with (tokens : List (List UInt8)) :
    realPath mount tokens = pathImage mount.cipher mount.root tokens := rfl

theorem getRealPath_text {path : List UInt8} (absolute : path.head? = some slash)
    (clean : 0 ∉ path) (outBuff : Nat → UInt8) :
    (getRealPath mount path outBuff).1.text = realPath mount (components path) := by
  have encrypted : ∀ token ∈ components path, 0 ∉ mount.cipher token := fun token _ =>
    encoded_clean mount.aes mount.codec token
  rw [getRealPath_with, realPath_with]
  exact (getRealPathWith_eq mount.rootClean absolute clean encrypted outBuff).1.text

end

end Akiso.Fuse
