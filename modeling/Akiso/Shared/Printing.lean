import Mathlib.Data.List.Basic

set_option autoImplicit false

/-!
# Printing into a buffer at a running total

A buffer of `capacity` bytes is filled by calls of `snprintf`, each behind what the earlier ones
would have written and given the space that is left, both taken from one running total. The total
counts whole texts, also those that are cut, and the space is an unsigned number.
-/

namespace Akiso.Printing

def snprintf (size : Nat) (text : List UInt8) : List UInt8 :=
  if size = 0 then [] else text.take (size - 1) ++ [0]

abbrev Cells := Nat → Option UInt8

def store (cells : Cells) (offset : Nat) (bytes : List UInt8) : Cells := fun index =>
  if offset ≤ index ∧ index < offset + bytes.length then bytes[index - offset]? else cells index

structure Print where
  before : Int
  size : Nat
  after : Int
  deriving DecidableEq, Repr

structure Buffer where
  cells : Cells
  written : Int
  prints : List Print

def Buffer.empty : Buffer := { cells := fun _ => none, written := 0, prints := [] }

def spaceLeft (capacity : Nat) (written : Int) : Nat :=
  ((capacity - written) % 18446744073709551616).toNat

def print (capacity : Nat) (buffer : Buffer) (text : List UInt8) : Buffer :=
  let size := spaceLeft capacity buffer.written
  { cells := store buffer.cells buffer.written.toNat (snprintf size text)
    written := buffer.written + text.length
    prints := buffer.prints ++ [⟨buffer.written, size, buffer.written + text.length⟩] }

def printAll (capacity : Nat) (texts : List (List UInt8)) : Buffer :=
  texts.foldl (print capacity) Buffer.empty

structure Print.Fits (capacity : Nat) (call : Print) : Prop where
  before : 0 ≤ call.before ∧ call.before ≤ capacity
  space : (call.size : Int) = capacity - call.before
  after : 0 ≤ call.after ∧ call.after ≤ capacity

structure Buffer.Sound (capacity : Nat) (buffer : Buffer) : Prop where
  calls : ∀ call ∈ buffer.prints, call.Fits capacity
  put : ∀ index : Nat, (index : Int) < buffer.written → (buffer.cells index).isSome

theorem length_snprintf (size : Nat) (text : List UInt8) :
    (snprintf size text).length = min (text.length + 1) size := by
  unfold snprintf
  split
  next none => simp [none]
  next =>
    rw [List.length_append, List.length_take, List.length_singleton]
    omega

theorem spaceLeft_eq {capacity : Nat} {written : Int} (low : 0 ≤ written)
    (high : written ≤ capacity) (small : capacity < 18446744073709551616) :
    (spaceLeft capacity written : Int) = capacity - written := by
  unfold spaceLeft
  rw [Int.emod_eq_of_lt (by omega) (by omega)]
  omega

theorem store_isSome {cells : Cells} {offset index : Nat} {bytes : List UInt8}
    (known : (cells index).isSome ∨ offset ≤ index ∧ index < offset + bytes.length) :
    (store cells offset bytes index).isSome := by
  unfold store
  split
  next inside =>
    rw [List.getElem?_eq_getElem (by omega)]
    rfl
  next outside => exact known.resolve_right outside

section Printing

variable {capacity : Nat} {buffer : Buffer}

def Buffer.Counted (buffer : Buffer) : Prop :=
  0 ≤ buffer.written ∧ (buffer.written = 0 ∨ ∃ call ∈ buffer.prints, call.after = buffer.written)

theorem Buffer.Counted.print (counted : buffer.Counted) (text : List UInt8) :
    (print capacity buffer text).Counted := by
  have low := counted.1
  constructor
  · simp only [Printing.print]
    omega
  · exact Or.inr ⟨_, List.mem_append_right _ (List.mem_singleton_self _), rfl⟩

theorem Buffer.Sound.print (sound : buffer.Sound capacity) (counted : buffer.Counted)
    {text : List UInt8} (small : capacity < 18446744073709551616)
    (fits : buffer.written + text.length ≤ capacity) :
    (print capacity buffer text).Sound capacity := by
  have low := counted.1
  have space := spaceLeft_eq low (by omega) small
  constructor
  · intro call member
    rcases List.mem_append.mp member with earlier | last
    · exact sound.calls call earlier
    · rw [List.mem_singleton.mp last]
      constructor
      · dsimp only
        omega
      · exact space
      · dsimp only
        omega
  · intro index below
    apply store_isSome
    simp only [Printing.print] at below
    by_cases earlier : (index : Int) < buffer.written
    next => exact Or.inl (sound.put index earlier)
    next =>
      right
      rw [length_snprintf]
      omega

theorem foldl_written (texts : List (List UInt8)) (buffer : Buffer) :
    (texts.foldl (print capacity) buffer).written =
      buffer.written + texts.flatten.length := by
  induction texts generalizing buffer with
  | nil => simp
  | cons text rest ih =>
    rw [List.foldl_cons, ih]
    simp only [print, List.flatten_cons, List.length_append]
    omega

theorem foldl_counted (capacity : Nat) (texts : List (List UInt8)) (counted : buffer.Counted) :
    (texts.foldl (print capacity) buffer).Counted := by
  induction texts generalizing buffer with
  | nil => exact counted
  | cons text rest ih => exact ih (counted.print text)

-- The budget left for the texts to come carries the induction.
theorem foldl_sound (texts : List (List UInt8)) (small : capacity < 18446744073709551616)
    (sound : buffer.Sound capacity) (counted : buffer.Counted)
    (budget : buffer.written + texts.flatten.length ≤ capacity) :
    (texts.foldl (print capacity) buffer).Sound capacity := by
  induction texts generalizing buffer with
  | nil => exact sound
  | cons text rest ih =>
    rw [List.flatten_cons, List.length_append] at budget
    apply ih
    · exact sound.print counted small (by omega)
    · exact counted.print text
    · simp only [print]
      omega

end Printing

theorem Buffer.empty_counted : Buffer.empty.Counted := ⟨Int.le_refl 0, Or.inl rfl⟩

theorem Buffer.empty_sound (capacity : Nat) : Buffer.empty.Sound capacity where
  calls := by simp [empty]
  put := by
    intro index below
    simp only [empty] at below
    omega

theorem printAll_written (capacity : Nat) (texts : List (List UInt8)) :
    (printAll capacity texts).written = texts.flatten.length := by
  rw [printAll, foldl_written]
  exact Int.zero_add _

theorem total_le_of_calls {capacity : Nat} (texts : List (List UInt8))
    (calls : ∀ call ∈ (printAll capacity texts).prints, call.Fits capacity) :
    texts.flatten.length ≤ capacity := by
  have written := printAll_written capacity texts
  rcases (foldl_counted capacity texts Buffer.empty_counted).2 with none | some
  · rw [printAll, none] at written
    omega
  · obtain ⟨call, member, after⟩ := some
    have fits := (calls call member).after.2
    rw [after] at fits
    rw [printAll] at written
    omega

theorem printAll_sound {capacity : Nat} (small : capacity < 18446744073709551616)
    (texts : List (List UInt8)) (fits : texts.flatten.length ≤ capacity) :
    (printAll capacity texts).Sound capacity := by
  apply foldl_sound texts small (Buffer.empty_sound capacity) Buffer.empty_counted
  simp only [Buffer.empty]
  omega

def Buffer.Holds (buffer : Buffer) (text : List UInt8) : Prop :=
  buffer.written = text.length ∧ ∀ index, index < text.length → buffer.cells index = text[index]?

theorem Buffer.Holds.cells_eq {buffer : Buffer} {text : List UInt8} (holds : buffer.Holds text) :
    (List.range text.length).map buffer.cells = text.map some := by
  apply List.ext_getElem
  · simp
  · intro index inside _
    rw [List.length_map, List.length_range] at inside
    simp [holds.2 index inside, inside]

theorem Buffer.Holds.print {capacity : Nat} {buffer : Buffer} {held text : List UInt8}
    (holds : buffer.Holds held) (small : capacity < 18446744073709551616)
    (fits : held.length + text.length < capacity) :
    (print capacity buffer text).Holds (held ++ text) := by
  obtain ⟨written, cells⟩ := holds
  have within : 0 ≤ buffer.written ∧ buffer.written ≤ capacity := by omega
  have space := spaceLeft_eq within.1 within.2 small
  have whole : snprintf (spaceLeft capacity buffer.written) text = text ++ [0] := by
    rw [snprintf, if_neg (by omega), List.take_of_length_le (by omega)]
  rw [written] at whole
  constructor
  · simp only [Printing.print, List.length_append]
    omega
  · intro index below
    rw [List.length_append] at below
    simp only [Printing.print, store, written, Int.toNat_natCast, whole]
    by_cases earlier : index < held.length
    next =>
      rw [if_neg (by omega), cells index earlier, List.getElem?_append_left earlier]
    next =>
      rw [if_pos (by simp; omega), List.getElem?_append_left (by omega),
        List.getElem?_append_right (by omega)]

theorem foldl_holds {capacity : Nat} (texts : List (List UInt8)) {buffer : Buffer}
    {held : List UInt8} (holds : buffer.Holds held) (small : capacity < 18446744073709551616)
    (budget : held.length + texts.flatten.length < capacity) :
    (texts.foldl (print capacity) buffer).Holds (held ++ texts.flatten) := by
  induction texts generalizing buffer held with
  | nil => simpa using holds
  | cons text rest ih =>
    rw [List.flatten_cons, List.length_append] at budget
    have printed := holds.print small (show held.length + text.length < capacity by omega)
    have next := ih printed (by rw [List.length_append]; omega)
    simpa using next

theorem printAll_holds {capacity : Nat} (small : capacity < 18446744073709551616)
    (texts : List (List UInt8)) (fits : texts.flatten.length < capacity) :
    (printAll capacity texts).Holds texts.flatten := by
  have empty : Buffer.empty.Holds [] := ⟨rfl, by simp⟩
  exact foldl_holds texts empty small (by simpa using fits)

end Akiso.Printing
