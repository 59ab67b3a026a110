import Akiso.Minitalk.Prompting

set_option autoImplicit false

namespace Akiso.Minitalk

open CString Strtol Transition

def Available (server : Server) (slot : Slot) : Prop :=
  (server.loggedIn slot).fd ≠ 0 ∧ (server.loggedIn slot).name ≠ none

instance (server : Server) : DecidablePred (Available server) := fun _ =>
  inferInstanceAs (Decidable (_ ≠ 0 ∧ _ ≠ none))

def lineText (line : List UInt8) : List UInt8 :=
  if line.getLast? = some newline then line.dropLast else line

def Offered (server : Server) (slot : Slot) (line : List UInt8) (target : Slot) : Prop :=
  (∃ name, (target, name) ∈ promptEntries server slot) ∧
    written (lineText line) = some (target.val : Int)

-- The text that strtol is given: the buffer takes 255 bytes of the line, the last byte stored is
-- overwritten whatever it is, and the string ends at a NUL.
def heldText (line : List UInt8) : List UInt8 :=
  cstring (line.take (bufferSize - 1)).dropLast

-- The number new_to a text gives: none for an empty one counts as 0, and others are narrowed.
def numberRead (text : List UInt8) : Option Int :=
  if text = [] then some 0 else (written text).map fun value => toInt (saturate value)

/-- The number read is not the sender's own, and for any other user the list offers it is read
exactly from that user's numeral. -/
structure ReadsFaithfully (server : Server) (slot : Slot) (line : List UInt8) : Prop where
  other : numberRead (heldText line) ≠ some (slot.val : Int)
  same : ∀ target, target ≠ slot → Available server target →
    (numberRead (heldText line) = some (target.val : Int) ↔
      written (lineText line) = some (target.val : Int))

section Selecting

variable {server next : Server} {slot : Slot} {buff line : List UInt8}

theorem Offered.inj {first second : Slot} (one : Offered server slot line first)
    (two : Offered server slot line second) : first = second := by
  have same := one.2.symm.trans two.2
  rw [Option.some.injEq] at same
  apply Fin.ext
  omega

variable (safe : SlotsSafe server.loggedIn) (sender : Available server slot)
  (held : cstring buff = heldText line)

include sender

include held

include safe

end Selecting

section Serving

variable {server next : Server} {slot : Slot} {readable writable left : FdSet} {conn : ConnId}
  {buff : List UInt8} {rest : List ReadOutcome}

end Serving

theorem numberRead_numeral {text : List UInt8} {target : Slot}
    (numeral : written text = some (target.val : Int)) :
    numberRead text = some (target.val : Int) := by
  have below := target.isLt
  have fits : FitsInt (target.val : Int) := by
    unfold FitsInt
    omega
  have filled : text ≠ [] := by
    rintro rfl
    exact absurd numeral (by simp [written, signed])
  rw [numberRead, if_neg filled, numeral, Option.map_some, (toInt_saturate _).mpr fits]

theorem numberRead_cases {text : List UInt8} {target : Slot}
    (number : numberRead text = some (target.val : Int)) :
    text = [] ∧ target = 0 ∨ written text = some (target.val : Int) ∨
      ∃ value, written text = some value ∧ ¬ FitsInt value ∧
        toInt (saturate value) = target.val := by
  unfold numberRead at number
  by_cases blank : text = []
  next =>
    rw [if_pos blank, Option.some.injEq] at number
    left
    exact ⟨blank, Fin.ext (by simp; omega)⟩
  next =>
    rw [if_neg blank, Option.map_eq_some_iff] at number
    obtain ⟨value, numeral, narrowed⟩ := number
    right
    by_cases fits : FitsInt value
    next =>
      left
      rw [numeral, ← narrowed, (toInt_saturate value).mpr fits]
    next => exact Or.inr ⟨value, numeral, fits, narrowed⟩

-- For a line that is stored whole, the number goes wrong in three ways only: an empty line counts
-- as 0, a number beyond the range of an int is narrowed, and the user's own number is accepted.
theorem readsFaithfully_whole (server : Server) (slot : Slot) {text : List UInt8}
    (sender : Available server slot) (clean : 0 ∉ text) (short : text.length < bufferSize - 1) :
    ReadsFaithfully server slot (text ++ [newline]) ↔
      (text = [] → ¬ Available server 0) ∧ written text ≠ some (slot.val : Int) ∧
        ∀ value, written text = some value → ¬ FitsInt value →
          ∀ target : Slot, toInt (saturate value) = target.val → ¬ Available server target := by
  have whole : heldText (text ++ [newline]) = text := by
    rw [heldText, List.take_of_length_le (by rw [List.length_append]; simp; omega),
      List.dropLast_concat, cstring_eq_self clean]
  have plain : lineText (text ++ [newline]) = text := by simp [lineText]
  constructor
  · intro faithful
    have same : ∀ target, Available server target → numberRead text = some (target.val : Int) →
        written text = some (target.val : Int) := by
      intro target available number
      rw [← whole] at number
      have apart : target ≠ slot := fun own => faithful.other (own ▸ number)
      rw [← plain]
      exact (faithful.same target apart available).mp number
    refine ⟨?_, ?_, ?_⟩
    · rintro rfl available
      exact absurd (same 0 available rfl) (by decide)
    · intro own
      have number := numberRead_numeral own
      rw [← whole] at number
      exact faithful.other number
    · intro value numeral wide target narrowed available
      have filled : text ≠ [] := by
        rintro rfl
        exact absurd numeral (by simp [written, signed])
      have number : numberRead text = some (target.val : Int) := by
        rw [numberRead, if_neg filled, numeral, Option.map_some, narrowed]
      have known := numeral.symm.trans (same target available number)
      rw [Option.some.injEq] at known
      rw [← toInt_saturate, narrowed] at wide
      exact wide known.symm
  · rintro ⟨blank, own, narrowed⟩
    have same : ∀ target, Available server target → numberRead text = some (target.val : Int) →
        written text = some (target.val : Int) := by
      intro target available number
      rcases numberRead_cases number with ⟨empty, rfl⟩ | numeral | ⟨value, numeral, wide, narrow⟩
      · exact absurd available (blank empty)
      · exact numeral
      · exact absurd available (narrowed value numeral wide target narrow)
    constructor
    · rw [whole]
      intro number
      exact own (same slot sender number)
    · intro target _ available
      rw [whole, plain]
      exact ⟨same target available, numberRead_numeral⟩

end Akiso.Minitalk
