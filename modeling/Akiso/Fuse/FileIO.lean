import Akiso.Fuse.Crypt

set_option autoImplicit false

namespace Akiso.Fuse

-- The system calls on an open file, each of them succeeding in full.
def pread (file : List UInt8) (size offset : Nat) : List UInt8 :=
  (file.drop offset).take size

def pwrite (file data : List UInt8) (offset : Nat) : List UInt8 :=
  if data = [] then file
  else file.take offset ++ List.replicate (offset - file.length) 0 ++ data ++
    file.drop (offset + data.length)

def ftruncate (file : List UInt8) (length : Nat) : List UInt8 :=
  file.take length ++ List.replicate (length - file.length) 0

inductive FileCall where
  | write (buf : List UInt8) (offset : Nat)
  | read (size offset : Nat)
  | ftruncate (length : Nat)
  | fgetattr
  deriving DecidableEq, Repr

inductive Answer where
  | wrote (count : Nat)
  | got (bytes : List UInt8)
  | failed
  | done
  | stat (size : Nat)
  deriving DecidableEq, Repr

-- The window is as long as the read asked for, whatever of it pread has filled.
def myRead (aes : Aes) (stale : Nat → UInt8) (file : List UInt8) (size offset : Nat) : Answer :=
  let data := pread file size offset
  let window := (List.range size).map fun index => data.getD index (stale index)
  match myDecryptBinary aes window with
  | some buf => .got buf
  | none => .failed

def myWrite (aes : Aes) (file buf : List UInt8) (offset : Nat) : Answer × List UInt8 :=
  let encrypted := myEncryptBinary aes buf
  (.wrote encrypted.length, pwrite file encrypted offset)

def myFtruncate (file : List UInt8) (length : Nat) : Answer × List UInt8 :=
  (.done, ftruncate file length)

def myFgetattr (file : List UInt8) : Answer := .stat file.length

-- The bytes of the uninitialised buffer differ from call to call.
def encryptedCall (aes : Aes) (stale : Nat → UInt8) (file : List UInt8) :
    FileCall → Answer × List UInt8
  | .write buf offset => myWrite aes file buf offset
  | .read size offset => (myRead aes stale file size offset, file)
  | .ftruncate length => myFtruncate file length
  | .fgetattr => (myFgetattr file, file)

def plainCall (file : List UInt8) : FileCall → Answer × List UInt8
  | .write buf offset => (.wrote buf.length, pwrite file buf offset)
  | .read size offset => (.got (pread file size offset), file)
  | .ftruncate length => (.done, ftruncate file length)
  | .fgetattr => (.stat file.length, file)

def encryptedAnswers (aes : Aes) : (Nat → Nat → UInt8) → List UInt8 → List FileCall → List Answer
  | _, _, [] => []
  | stale, file, call :: rest =>
    (encryptedCall aes (stale 0) file call).1 ::
      encryptedAnswers aes (fun index => stale (index + 1))
        (encryptedCall aes (stale 0) file call).2
        rest

def plainAnswers : List UInt8 → List FileCall → List Answer
  | _, [] => []
  | file, call :: rest => (plainCall file call).1 :: plainAnswers (plainCall file call).2 rest

def Refines (calls : List FileCall) : Prop :=
  ∀ aes stale, encryptedAnswers aes stale [] calls = plainAnswers [] calls

def FileCall.ciphers : FileCall → Bool
  | .write _ _ => true
  | .read _ _ => true
  | _ => false

theorem ftruncate_zeros (count length : Nat) :
    ftruncate (List.replicate count 0) length = List.replicate length 0 := by
  rw [ftruncate, List.take_replicate, List.length_replicate, List.replicate_append_replicate]
  congr 1
  omega

theorem encryptedCall_plain {call : FileCall} (aes : Aes) (stale : Nat → UInt8) (file : List UInt8)
    (plain : call.ciphers = false) : encryptedCall aes stale file call = plainCall file call := by
  cases call with
  | write buf offset => simp [FileCall.ciphers] at plain
  | read size offset => simp [FileCall.ciphers] at plain
  | ftruncate length => rfl
  | fgetattr => rfl

theorem encryptedAnswers_plain {calls : List FileCall} (aes : Aes) (stale : Nat → Nat → UInt8)
    (file : List UInt8) (plain : ∀ call ∈ calls, call.ciphers = false) :
    encryptedAnswers aes stale file calls = plainAnswers file calls := by
  induction calls generalizing stale file with
  | nil => rfl
  | cons call rest ih =>
    have same := encryptedCall_plain aes (stale 0) file (plain call List.mem_cons_self)
    rw [encryptedAnswers, plainAnswers, same]
    rw [ih _ _ fun later member => plain later (List.mem_cons_of_mem _ member)]

-- my_write returns the length of what it has encrypted.
theorem myWrite_answer (aes : Aes) (file buf : List UInt8) (offset : Nat) :
    (myWrite aes file buf offset).1 ≠ .wrote buf.length := by
  simp only [myWrite, myEncryptBinary, aes.length, ne_eq, Answer.wrote.injEq]
  omega

theorem myRead_zeros (count size offset : Nat) :
    myRead paddingAes (fun _ => 0) (List.replicate count 0) size offset = .failed := by
  have window : ((List.range size).map fun index =>
      (pread (List.replicate count 0) size offset).getD index 0) = List.replicate size 0 := by
    rw [List.eq_replicate_iff]
    refine ⟨by simp, ?_⟩
    intro byte member
    obtain ⟨index, _, same⟩ := List.mem_map.mp member
    rw [← same, pread, List.drop_replicate, List.take_replicate, List.getD_eq_getElem?_getD,
      List.getElem?_replicate]
    split
    next => rfl
    next => rfl
  simp only [myRead, window, myDecryptBinary, paddingAes, Padding.unpad_zeros, Option.map_none]

theorem plain_of_agree (count : Nat) {calls : List FileCall}
    (agree : encryptedAnswers paddingAes (fun _ _ => 0) (List.replicate count 0) calls =
      plainAnswers (List.replicate count 0) calls) : ∀ call ∈ calls, call.ciphers = false := by
  induction calls generalizing count with
  | nil => simp
  | cons call rest ih =>
    simp only [encryptedAnswers, plainAnswers, List.cons.injEq] at agree
    obtain ⟨head, tail⟩ := agree
    rw [List.forall_mem_cons]
    cases call with
    | write buf offset => exact absurd head (myWrite_answer _ _ _ _)
    | read size offset =>
      simp only [encryptedCall, myRead_zeros] at head
      cases head
    | ftruncate length =>
      simp only [encryptedCall, myFtruncate, plainCall, ftruncate_zeros] at tail
      exact ⟨rfl, ih _ tail⟩
    | fgetattr => exact ⟨rfl, ih _ tail⟩

theorem refines_iff (calls : List FileCall) :
    Refines calls ↔ ∀ call ∈ calls, call.ciphers = false := by
  constructor
  · intro refines
    exact plain_of_agree 0 (refines paddingAes fun _ _ => 0)
  · intro plain aes stale
    exact encryptedAnswers_plain aes stale [] plain

theorem refines_fails :
    encryptedAnswers paddingAes (fun _ _ => 0) [] [.write [120] 0] = [.wrote 16] ∧
      plainAnswers [] [.write [120] 0] = [.wrote 1] ∧ ¬ Refines [.write [120] 0] := by
  refine ⟨by decide, by decide, ?_⟩
  intro refines
  have agree := refines paddingAes fun _ _ => 0
  revert agree
  decide

end Akiso.Fuse
