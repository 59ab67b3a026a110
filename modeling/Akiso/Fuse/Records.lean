import Akiso.Fuse.FileIO
import Akiso.Shared.Transition
import Mathlib.Logic.Function.Basic

set_option autoImplicit false

namespace Akiso.Fuse

open Transition

section Bytes

variable {file data : List UInt8} {size offset start length : Nat}

theorem getElem_pread (index : Nat) : (pread file size offset)[index]? =
    if index < size then file[offset + index]? else none := by
  simp [pread, List.getElem?_take, List.getElem?_drop]

theorem getElem_pwrite {index : Nat} (inside : index < file.length)
    (apart : index < offset ∨ offset + data.length ≤ index) :
    (pwrite file data offset)[index]? = file[index]? := by
  unfold pwrite
  split
  next => rfl
  next =>
    rw [List.append_assoc, List.append_assoc]
    rcases apart with before | behind
    · rw [List.getElem?_append_left (by rw [List.length_take]; omega),
        List.getElem?_take_of_lt before]
    · rw [List.getElem?_append_right (by rw [List.length_take]; omega),
        List.getElem?_append_right (by simp only [List.length_take, List.length_replicate]; omega),
        List.getElem?_append_right (by simp only [List.length_take, List.length_replicate]; omega),
        List.getElem?_drop]
      congr 1
      simp only [List.length_take, List.length_replicate]
      omega

theorem length_pwrite (file : List UInt8) (offset : Nat) (filled : data ≠ []) :
    (pwrite file data offset).length = max file.length (offset + data.length) := by
  simp only [pwrite, if_neg filled, List.length_append, List.length_take, List.length_replicate,
    List.length_drop]
  omega

theorem pread_pwrite (file data : List UInt8) (offset : Nat) :
    pread (pwrite file data offset) data.length offset = data := by
  by_cases empty : data = []
  · simp [empty, pread]
  · simp only [pwrite, if_neg empty, pread]
    have before : (file.take offset ++ List.replicate (offset - file.length) 0).length =
        offset := by
      simp only [List.length_append, List.length_take, List.length_replicate]
      omega
    rw [List.append_assoc, List.append_assoc, ← List.append_assoc (file.take offset)]
    rw [List.drop_append_of_le_length (by omega), List.drop_of_length_le (by omega)]
    simp

theorem pread_pwrite_apart (inside : start + size ≤ file.length)
    (apart : start + size ≤ offset ∨ offset + data.length ≤ start) :
    pread (pwrite file data offset) size start = pread file size start := by
  apply List.ext_getElem?
  intro index
  rw [getElem_pread, getElem_pread]
  split
  next small =>
    exact getElem_pwrite (by omega) (by omega)
  next => rfl

theorem length_ftruncate : (ftruncate file length).length = length := by
  simp only [ftruncate, List.length_append, List.length_take, List.length_replicate]
  omega

theorem pread_ftruncate (inside : start + size ≤ file.length) (kept : start + size ≤ length) :
    pread (ftruncate file length) size start = pread file size start := by
  apply List.ext_getElem?
  intro index
  rw [getElem_pread, getElem_pread]
  split
  next small =>
    rw [ftruncate, List.getElem?_append_left (by rw [List.length_take]; omega),
      List.getElem?_take_of_lt (by omega)]
  next => rfl

end Bytes

def storedLength (buf : List UInt8) : Nat :=
  16 * (buf.length / 16 + 1)

/-- A file as the buffers written to it: each by its offset, and the length of the file. -/
structure RecordFile where
  records : Nat → Option (List UInt8)
  length : Nat

namespace RecordFile

def empty : RecordFile :=
  { records := fun _ => none, length := 0 }

def write (file : RecordFile) (buf : List UInt8) (offset : Nat) : RecordFile :=
  { records := Function.update file.records offset (some buf)
    length := max file.length (offset + storedLength buf) }

def truncate (file : RecordFile) (length : Nat) : RecordFile :=
  { records := fun offset => (file.records offset).filter fun buf =>
      offset + storedLength buf ≤ length
    length }

def call (file : RecordFile) : FileCall → Answer × RecordFile
  | .write buf offset => (.wrote (storedLength buf), file.write buf offset)
  | .read _ offset =>
    (match file.records offset with
      | some buf => .got buf
      | none => .failed, file)
  | .ftruncate length => (.done, file.truncate length)
  | .fgetattr => (.stat file.length, file)

-- A write fits the buffer and touches no record but the one at its offset, and a read asks for a
-- record as a whole.
def Placed (file : RecordFile) : FileCall → Prop
  | .write buf offset => buf.length < 8192 ∧ ∀ other record, file.records other = some record →
      other = offset ∨ other + storedLength record ≤ offset ∨ offset + storedLength buf ≤ other
  | .read size offset => ∃ buf, file.records offset = some buf ∧ size = storedLength buf
  | _ => True

end RecordFile

def recordAnswers : RecordFile → List FileCall → List Answer
  | _, [] => []
  | file, call :: rest => (file.call call).1 :: recordAnswers (file.call call).2 rest

def recordStep (file : RecordFile) (call : FileCall) : Option RecordFile :=
  some (file.call call).2

variable {aes : Aes} {disk : List UInt8} {file : RecordFile}

structure Holding (aes : Aes) (disk : List UInt8) (file : RecordFile) : Prop where
  length : disk.length = file.length
  short : ∀ offset buf, file.records offset = some buf → buf.length < 8192
  inside : ∀ offset buf, file.records offset = some buf →
    offset + storedLength buf ≤ disk.length
  stored : ∀ offset buf, file.records offset = some buf →
    pread disk (storedLength buf) offset = aes.encrypt buf

theorem encrypt_filled (aes : Aes) (buf : List UInt8) : aes.encrypt buf ≠ [] := by
  intro empty
  have length := aes.length buf
  rw [empty, List.length_nil] at length
  omega

theorem Holding.write (holding : Holding aes disk file) {buf : List UInt8} {offset : Nat}
    (placed : file.Placed (.write buf offset)) :
    Holding aes (pwrite disk (aes.encrypt buf) offset) (file.write buf offset) := by
  obtain ⟨fits, apart⟩ := placed
  have length := aes.length buf
  have grown := length_pwrite disk offset (encrypt_filled aes buf)
  have here : ∀ other record, (file.write buf offset).records other = some record →
      other = offset ∧ record = buf ∨ other ≠ offset ∧ file.records other = some record := by
    intro other record found
    by_cases same : other = offset
    · subst same
      exact .inl ⟨rfl, by simpa [RecordFile.write, eq_comm] using found⟩
    · exact .inr ⟨same, by simpa [RecordFile.write, same] using found⟩
  constructor
  next =>
    rw [grown, holding.length, length]
    rfl
  next =>
    intro other record found
    rcases here other record found with ⟨-, rfl⟩ | ⟨-, older⟩
    · exact fits
    · exact holding.short other record older
  next =>
    intro other record found
    rw [grown]
    rcases here other record found with ⟨rfl, rfl⟩ | ⟨-, older⟩
    · simp only [storedLength, length]
      omega
    · exact Nat.le_trans (holding.inside other record older) (Nat.le_max_left _ _)
  next =>
    intro other record found
    rcases here other record found with ⟨rfl, rfl⟩ | ⟨different, older⟩
    · have written := pread_pwrite disk (aes.encrypt record) other
      rwa [length] at written
    · rw [pread_pwrite_apart (holding.inside other record older), holding.stored _ _ older]
      rw [length]
      exact (apart other record older).resolve_left different

theorem Holding.truncate (holding : Holding aes disk file) (length : Nat) :
    Holding aes (Fuse.ftruncate disk length) (file.truncate length) := by
  have kept : ∀ offset buf, (file.truncate length).records offset = some buf →
      file.records offset = some buf ∧ offset + storedLength buf ≤ length := by
    intro offset buf found
    simpa [RecordFile.truncate, Option.filter_eq_some_iff] using found
  constructor
  next => exact length_ftruncate
  next => exact fun offset buf found => holding.short offset buf (kept offset buf found).1
  next =>
    intro offset buf found
    rw [length_ftruncate]
    exact (kept offset buf found).2
  next =>
    intro offset buf found
    obtain ⟨older, uncut⟩ := kept offset buf found
    rw [pread_ftruncate (holding.inside offset buf older) uncut, holding.stored offset buf older]

-- pread fills the window, so that nothing of the uninitialised array is decrypted.
theorem Holding.read (holding : Holding aes disk file) (stale : Nat → UInt8) {offset : Nat}
    {buf : List UInt8} (stored : file.records offset = some buf) :
    myRead aes stale disk (storedLength buf) offset = .got buf := by
  have whole : (List.range (storedLength buf)).map (fun index =>
      (aes.encrypt buf).getD index (stale index)) = aes.encrypt buf := by
    apply List.ext_getElem
    · simp [aes.length, storedLength]
    · intro index _ inside
      simp [inside]
  have short := holding.short offset buf stored
  simp only [myRead, holding.stored offset buf stored, whole, myDecryptBinary, aes.inverse,
    Option.map_some, List.take_of_length_le (Nat.le_of_lt short)]

theorem Holding.call (holding : Holding aes disk file) (stale : Nat → UInt8) {call : FileCall}
    (placed : file.Placed call) :
    (encryptedCall aes stale disk call).1 = (file.call call).1 ∧
      Holding aes (encryptedCall aes stale disk call).2 (file.call call).2 := by
  cases call with
  | write buf offset =>
    refine ⟨?_, holding.write placed⟩
    simp [encryptedCall, myWrite, myEncryptBinary, RecordFile.call, aes.length, storedLength]
  | read size offset =>
    obtain ⟨buf, stored, rfl⟩ := placed
    refine ⟨?_, holding⟩
    simp only [encryptedCall, RecordFile.call, stored]
    exact holding.read stale stored
  | ftruncate length => exact ⟨rfl, holding.truncate length⟩
  | fgetattr => exact ⟨congrArg Answer.stat holding.length, holding⟩

theorem Holding.answers (calls : List FileCall) (stale : Nat → Nat → UInt8)
    (holding : Holding aes disk file)
    (placed : Always recordStep RecordFile.Placed file calls) :
    encryptedAnswers aes stale disk calls = recordAnswers file calls := by
  induction calls generalizing stale disk file with
  | nil => rfl
  | cons call rest ih =>
    obtain ⟨first, later⟩ := placed
    obtain ⟨answer, kept⟩ := holding.call (stale 0) first
    rw [encryptedAnswers, recordAnswers, answer]
    rw [ih (fun index => stale (index + 1)) kept (later _ rfl)]

/-- On a new file the calls are answered as on a store of records, as long as no write touches a
part of another record and each read asks for a record as a whole. -/
theorem records_read_back (aes : Aes) (stale : Nat → Nat → UInt8) (calls : List FileCall)
    (placed : Always recordStep RecordFile.Placed .empty calls) :
    encryptedAnswers aes stale [] calls = recordAnswers .empty calls :=
  Holding.answers calls stale ⟨rfl, nofun, nofun, nofun⟩ placed

def rewritten : List FileCall :=
  [.write [97, 115, 100] 0, .write [120] 16, .write [97] 0, .read 16 0, .read 16 16,
    .ftruncate 20, .fgetattr, .read 16 0]

theorem records_read_back_rewritten :
    encryptedAnswers paddingAes (fun _ _ => 0) [] rewritten = recordAnswers .empty rewritten ∧
      recordAnswers .empty rewritten = [.wrote 16, .wrote 16, .wrote 16, .got [97], .got [120],
        .done, .stat 20, .got [97]] := by
  refine ⟨records_read_back paddingAes _ rewritten ?_, by decide⟩
  simp [rewritten, Always, recordStep, RecordFile.Placed, RecordFile.call, RecordFile.write,
    RecordFile.truncate, RecordFile.empty, storedLength, Function.update_apply]
  intro other record found
  split at found
  next same => exact .inr (Nat.le_of_eq same.symm)
  next =>
    split at found
    next same => exact .inl same
    next => simp at found

end Akiso.Fuse
