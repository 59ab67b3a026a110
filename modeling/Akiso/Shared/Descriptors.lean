import Mathlib.Data.Set.Insert
import Mathlib.Logic.Function.Basic

set_option autoImplicit false

namespace Akiso.Descriptors

variable {F : Type}

structure Descriptor (F : Type) where
  file : F
  cloexec : Bool
  deriving DecidableEq, Repr

-- The open descriptors of one process; descriptor arguments are the ints of the C interface.
abbrev Table (F : Type) := Nat → Option (Descriptor F)

def lookup (table : Table F) (fd : Int) : Option (Descriptor F) :=
  if 0 ≤ fd then table fd.toNat else none

-- none is EBADF.
def close (table : Table F) (fd : Int) : Option (Table F) :=
  match lookup table fd with
  | some _ => some (Function.update table fd.toNat none)
  | none => none

def dup2 (table : Table F) (oldfd : Int) (newfd : Nat) : Option (Table F) :=
  match lookup table oldfd with
  | some descriptor =>
    if oldfd = newfd then some table
    else some (Function.update table newfd (some { descriptor with cloexec := false }))
  | none => none

-- The kernel may answer with any two free numbers; none when it cannot answer with these.
def openPair (table : Table F) (readFile writeFile : F) (read write : Nat) : Option (Table F) :=
  if read ≠ write ∧ table read = none ∧ table write = none then
    some (Function.update
      (Function.update table read (some { file := readFile, cloexec := false }))
      write (some { file := writeFile, cloexec := false }))
  else none

def setCloexec (table : Table F) (fd : Nat) : Table F :=
  Function.update table fd ((table fd).map fun descriptor => { descriptor with cloexec := true })

@[simp] theorem lookup_ofNat (table : Table F) (fd : Nat) : lookup table (fd : Int) = table fd := by
  simp [lookup]

theorem close_some {table closed : Table F} {fd : Int} (done : close table fd = some closed) :
    ∃ number : Nat, fd = number ∧ closed = Function.update table number none := by
  unfold close at done
  split at done
  next descriptor found =>
    cases done
    unfold lookup at found
    split at found
    next positive => exact ⟨fd.toNat, (Int.toNat_of_nonneg positive).symm, rfl⟩
    next => simp at found
  next => simp at done

theorem close_open {table : Table F} {fd : Nat} (opened : (table fd).isSome) :
    close table (fd : Int) = some (Function.update table fd none) := by
  obtain ⟨descriptor, found⟩ := Option.isSome_iff_exists.mp opened
  simp [close, found]

theorem dup2_open {table : Table F} {oldfd newfd : Nat} {descriptor : Descriptor F}
    (found : table oldfd = some descriptor) (different : oldfd ≠ newfd) :
    dup2 table (oldfd : Int) newfd =
      some (Function.update table newfd (some { descriptor with cloexec := false })) := by
  have apart : (oldfd : Int) ≠ newfd := fun same => different (Int.ofNat.inj same)
  simp [dup2, found, apart]

theorem dup2_self {table : Table F} {fd : Nat} (opened : (table fd).isSome) :
    dup2 table (fd : Int) fd = some table := by
  obtain ⟨descriptor, found⟩ := Option.isSome_iff_exists.mp opened
  simp [dup2, found]

def Shrinks (before after : Table F) : Prop :=
  ∀ fd, after fd = before fd ∨ after fd = none

theorem Shrinks.refl (table : Table F) : Shrinks table table :=
  fun _ => Or.inl rfl

theorem Shrinks.trans {first second third : Table F} (early : Shrinks first second)
    (late : Shrinks second third) : Shrinks first third := by
  intro fd
  rcases late fd with same | gone
  · rw [same]
    exact early fd
  · exact Or.inr gone

theorem Shrinks.some {before after : Table F} (shrinks : Shrinks before after) {fd : Nat}
    {descriptor : Descriptor F} (present : after fd = some descriptor) :
    before fd = some descriptor := by
  rcases shrinks fd with same | gone
  · exact same ▸ present
  · simp [gone] at present

theorem Shrinks.none {before after : Table F} (shrinks : Shrinks before after) {fd : Nat}
    (absent : before fd = none) : after fd = none := by
  rcases shrinks fd with same | gone
  · exact same.trans absent
  · exact gone

theorem shrinks_update_none (table : Table F) (fd : Nat) :
    Shrinks table (Function.update table fd none) := by
  intro other
  by_cases same : other = fd
  next => exact Or.inr (by simp [same])
  next => exact Or.inl (by simp [same])

theorem shrinks_close {table closed : Table F} {fd : Int} (done : close table fd = some closed) :
    Shrinks table closed := by
  obtain ⟨number, _, rfl⟩ := close_some done
  exact shrinks_update_none table number

theorem close_other {table closed : Table F} {fd : Int} {other : Nat}
    (done : close table fd = some closed) (different : fd ≠ other) :
    closed other = table other := by
  obtain ⟨number, rfl, rfl⟩ := close_some done
  have apart : other ≠ number := fun same => different (same ▸ rfl)
  simp [apart]

def openSet (table : Table F) : Set Nat := { fd | (table fd).isSome }

/-- The table is the one before with the descriptors of `live` opened on top. -/
structure Extends (before table : Table F) (live : Set Nat) : Prop where
  fresh : ∀ fd ∈ live, before fd = none
  opened : ∀ fd ∈ live, (table fd).isSome
  others : ∀ fd ∉ live, table fd = before fd

section Extends

variable {before table : Table F} {live : Set Nat}

theorem Extends.refl (table : Table F) : Extends table table ∅ :=
  ⟨fun _ => False.elim, fun _ => False.elim, fun _ _ => rfl⟩

theorem Extends.openSet_eq_iff (extended : Extends before table live) :
    openSet table = openSet before ↔ live = ∅ := by
  constructor
  · intro same
    refine Set.eq_empty_of_forall_notMem fun fd member => ?_
    have inside : fd ∈ openSet before := same ▸ extended.opened fd member
    simp [openSet, extended.fresh fd member] at inside
  · rintro rfl
    have same : table = before := funext fun fd => extended.others fd (Set.notMem_empty fd)
    rw [same]

theorem Extends.congr {other : Set Nat} (extended : Extends before table live)
    (same : ∀ fd, fd ∈ live ↔ fd ∈ other) : Extends before table other :=
  Set.ext same ▸ extended

theorem Extends.free {fd : Nat} (extended : Extends before table live) (free : table fd = none) :
    fd ∉ live ∧ before fd = none := by
  have outside : fd ∉ live := fun member => by simpa [free] using extended.opened fd member
  exact ⟨outside, (extended.others fd outside).symm.trans free⟩

theorem Extends.positive (extended : Extends before table live) (zero : (before 0).isSome)
    {fd : Nat} (member : fd ∈ live) : 0 < fd := by
  refine Nat.pos_of_ne_zero ?_
  rintro rfl
  simp [extended.fresh 0 member] at zero

theorem Extends.update_some {fd : Nat} {descriptor : Descriptor F}
    (extended : Extends before table live) (fresh : before fd = none) :
    Extends before (Function.update table fd (some descriptor)) (insert fd live) := by
  refine ⟨?_, ?_, ?_⟩
  · rintro other (rfl | member)
    · exact fresh
    · exact extended.fresh other member
  · rintro other (rfl | member)
    · simp
    · by_cases same : other = fd
      · simp [same]
      · simpa [Function.update_of_ne same] using extended.opened other member
  · intro other outside
    obtain ⟨different, outside⟩ := not_or.mp outside
    rw [Function.update_of_ne different]
    exact extended.others other outside

theorem Extends.update_none {fd : Nat} (extended : Extends before table live)
    (fresh : before fd = none) :
    Extends before (Function.update table fd none) (live \ {fd}) := by
  refine ⟨fun other member => extended.fresh other member.1, ?_, ?_⟩
  · rintro other ⟨member, different⟩
    simpa [Function.update_of_ne different] using extended.opened other member
  · intro other outside
    by_cases same : other = fd
    · simp [same, fresh]
    · rw [Function.update_of_ne same]
      exact extended.others other fun member => outside ⟨member, same⟩

theorem Extends.setCloexec (extended : Extends before table live) {fd : Nat} (member : fd ∈ live) :
    Extends before (setCloexec table fd) live := by
  obtain ⟨descriptor, present⟩ := Option.isSome_iff_exists.mp (extended.opened fd member)
  rw [Descriptors.setCloexec, present, Option.map_some]
  exact (extended.update_some (extended.fresh fd member)).congr fun other => by
    simpa using fun same => same ▸ member

theorem openPair_extends {opened : Table F} {readFile writeFile : F} {read write : Nat}
    (extended : Extends before table live)
    (made : openPair table readFile writeFile read write = some opened) :
    (read ≠ write ∧ read ∉ live ∧ write ∉ live ∧ before read = none ∧ before write = none) ∧
      Extends before opened (insert read (insert write live)) := by
  obtain ⟨⟨different, readFree, writeFree⟩, rfl⟩ := by simpa [openPair] using made
  obtain ⟨readNew, readFresh⟩ := extended.free readFree
  obtain ⟨writeNew, writeFresh⟩ := extended.free writeFree
  refine ⟨⟨different, readNew, writeNew, readFresh, writeFresh⟩, ?_⟩
  rw [Set.insert_comm]
  exact (extended.update_some readFresh).update_some writeFresh

end Extends

end Akiso.Descriptors
