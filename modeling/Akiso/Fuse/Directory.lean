import Mathlib.Logic.Function.Basic
import Akiso.Shared.Transition
import Akiso.Fuse.Path

set_option autoImplicit false

namespace Akiso.Fuse

open CString

-- The directories of the underlying file system by their paths, with the names of their entries.
abbrev Disk := List UInt8 → Option (List (List UInt8))

def parentEntry (path : List UInt8) : Option (List UInt8 × List UInt8) :=
  match path.reverse.dropWhile (· ≠ slash) with
  | [] => none
  | _ :: parent => some (parent.reverse, (path.reverse.takeWhile (· ≠ slash)).reverse)

def locate (disk : Disk) (path : List UInt8) :
    Option (List UInt8 × List UInt8 × List (List UInt8)) :=
  if pathMax ≤ path.length then none
  else
    match parentEntry path with
    | none => none
    | some (dir, entry) =>
      if entry = [] ∨ special entry then none
      else (disk dir).map fun entries => (dir, entry, entries)

-- The system calls, which may also fail for reasons that are not modelled.
def mkdir (disk : Disk) (path : List UInt8) : Option Disk :=
  match locate disk path with
  | none => none
  | some (dir, entry, entries) =>
    if entry ∈ entries then none
    else some (Function.update (Function.update disk path (some [])) dir (some (entry :: entries)))

def mknod (disk : Disk) (path : List UInt8) : Option Disk :=
  match locate disk path with
  | none => none
  | some (dir, entry, entries) =>
    if entry ∈ entries then none else some (Function.update disk dir (some (entry :: entries)))

def unlink (disk : Disk) (path : List UInt8) : Option Disk :=
  match locate disk path with
  | none => none
  | some (dir, entry, entries) =>
    if entry ∈ entries ∧ disk path = none then
      some (Function.update disk dir (some (entries.erase entry)))
    else none

def rmdir (disk : Disk) (path : List UInt8) : Option Disk :=
  match locate disk path with
  | none => none
  | some (dir, entry, entries) =>
    if entry ∈ entries ∧ disk path = some [] then
      some (Function.update (Function.update disk path none) dir (some (entries.erase entry)))
    else none

-- my_mkdir and its siblings make one system call on the real path.
def onRealPath (call : Disk → List UInt8 → Option Disk) (mount : Mount) (disk : Disk)
    (path : List UInt8) (array : Nat → UInt8) : Option Disk :=
  call disk (getRealPath mount path array).1.text

def myMkdir : Mount → Disk → List UInt8 → (Nat → UInt8) → Option Disk := onRealPath mkdir

def myMknod : Mount → Disk → List UInt8 → (Nat → UInt8) → Option Disk := onRealPath mknod

def myUnlink : Mount → Disk → List UInt8 → (Nat → UInt8) → Option Disk := onRealPath unlink

def myRmdir : Mount → Disk → List UInt8 → (Nat → UInt8) → Option Disk := onRealPath rmdir

inductive Operation where
  | mkdir
  | mknod
  | unlink
  | rmdir
  deriving DecidableEq, Repr

structure DirectoryCall where
  operation : Operation
  path : List UInt8
  array : Nat → UInt8

def directoryStep (mount : Mount) (disk : Disk) (call : DirectoryCall) : Option Disk :=
  match call.operation with
  | .mkdir => myMkdir mount disk call.path call.array
  | .mknod => myMknod mount disk call.path call.array
  | .unlink => myUnlink mount disk call.path call.array
  | .rmdir => myRmdir mount disk call.path call.array

def enomem : Int := 12

-- The string in buff; without a length from my_decrypt_base64 there is no place for its NUL.
def entryName (mount : Mount) (entry : List UInt8) : Option (List UInt8) :=
  let buff := if special entry then some entry
    else myDecryptBase64 mount.aes mount.codec entry entry.length
  buff.map fun plaintext => cstring (plaintext ++ [0])

def fillEntries (mount : Mount) (filler : List UInt8 → Int) :
    List (List UInt8) → Option (List (List UInt8) × Int)
  | [] => some ([], 0)
  | entry :: rest =>
    match entryName mount entry with
    | none => none
    | some name =>
      if filler name ≠ 0 then some ([name], -enomem)
      else (fillEntries mount filler rest).map fun (names, ret) => (name :: names, ret)

-- my_readdir, with the order in which readdir finds the entries; none without a directory.
def myReaddir (mount : Mount) (disk : Disk) (path : List UInt8) (array : Nat → UInt8)
    (order : List (List UInt8) → List (List UInt8)) (filler : List UInt8 → Int) :
    Option (List (List UInt8) × Int) :=
  let path := (getRealPath mount path array).1.text
  if pathMax ≤ path.length then none
  else
    match disk path with
    | none => none
    | some entries => fillEntries mount filler (order ([dot] :: [dot, dot] :: entries))

def Adds (disk : Disk) (path : List UInt8) (next : Disk) : Prop :=
  ∃ dir entry entries, locate disk path = some (dir, entry, entries) ∧ entry ∉ entries ∧
    next dir = some (entry :: entries)

def Removes (disk : Disk) (path : List UInt8) (next : Disk) : Prop :=
  ∃ dir entry entries, locate disk path = some (dir, entry, entries) ∧
    next dir = some (entries.erase entry)

section

variable {disk next : Disk} {path : List UInt8}

theorem mkdir_adds (made : mkdir disk path = some next) : Adds disk path next := by
  unfold mkdir at made
  split at made
  next => simp at made
  next dir entry entries located =>
    simp only [Option.ite_none_left_eq_some, Option.some.injEq] at made
    exact ⟨dir, entry, entries, located, made.1, made.2 ▸ Function.update_self _ _ _⟩

theorem mknod_adds (made : mknod disk path = some next) : Adds disk path next := by
  unfold mknod at made
  split at made
  next => simp at made
  next dir entry entries located =>
    simp only [Option.ite_none_left_eq_some, Option.some.injEq] at made
    exact ⟨dir, entry, entries, located, made.1, made.2 ▸ Function.update_self _ _ _⟩

theorem unlink_removes (removed : unlink disk path = some next) : Removes disk path next := by
  unfold unlink at removed
  split at removed
  next => simp at removed
  next dir entry entries located =>
    simp only [Option.ite_none_right_eq_some, Option.some.injEq] at removed
    exact ⟨dir, entry, entries, located, removed.2 ▸ Function.update_self _ _ _⟩

theorem rmdir_removes (removed : rmdir disk path = some next) : Removes disk path next := by
  unfold rmdir at removed
  split at removed
  next => simp at removed
  next dir entry entries located =>
    simp only [Option.ite_none_right_eq_some, Option.some.injEq] at removed
    exact ⟨dir, entry, entries, located, removed.2 ▸ Function.update_self _ _ _⟩

end

theorem parentEntry_append {dir entry : List UInt8} (single : slash ∉ entry) :
    parentEntry (dir ++ slash :: entry) = some (dir, entry) := by
  have plain : ∀ byte ∈ entry.reverse, decide (byte ≠ slash) = true := by
    intro byte member
    have different : byte ≠ slash := fun same => single (same ▸ List.mem_reverse.mp member)
    simpa using different
  have shape : (dir ++ slash :: entry).reverse = entry.reverse ++ slash :: dir.reverse := by simp
  have dropped : (dir ++ slash :: entry).reverse.dropWhile (· ≠ slash) = slash :: dir.reverse := by
    rw [shape, List.dropWhile_append_of_pos plain]
    simp
  have taken : (dir ++ slash :: entry).reverse.takeWhile (· ≠ slash) = entry.reverse := by
    rw [shape, List.takeWhile_append_of_pos plain]
    simp
  simp only [parentEntry, dropped, taken, List.reverse_reverse]

theorem realPath_child (mount : Mount) (tokens : List (List UInt8)) {name : List UInt8}
    (ordinary : ¬ special name) : realPath mount (tokens ++ [name]) =
      realPath mount tokens ++ slash :: encryptedName mount.aes mount.codec name := by
  simp [realPath, encodedComponent, ordinary]

end Akiso.Fuse
