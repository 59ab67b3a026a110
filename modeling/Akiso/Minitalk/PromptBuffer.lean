import Akiso.Shared.Printing
import Akiso.Minitalk.Routing

set_option autoImplicit false

namespace Akiso.Minitalk

open CString Printing

def promptCapacity : Nat := 512

def asciiText (text : String) : List UInt8 := text.toList.map fun c => c.toNat.toUInt8

def selectUserText : List UInt8 := asciiText "Select user:\n"

-- The conversion %3d of a slot's number.
def slotNumber (slot : Slot) : List UInt8 :=
  let digits := asciiText (String.ofList (Nat.toDigits 10 slot.val))
  List.replicate (3 - digits.length) 32 ++ digits

-- The format "%3d - %s\n".
def entryText (slot : Slot) (name : List UInt8) : List UInt8 :=
  slotNumber slot ++ asciiText " - " ++ cstring name ++ [newline]

structure Choice where
  buffer : Buffer
  count : Nat

def offerUser (server : Server) (slot : Slot) (choice : Choice) (other : Slot) : Choice :=
  if slot = other then choice
  else
    let otherUser := server.loggedIn other
    match otherUser.name with
    | none => choice
    | some name =>
      if otherUser.fd ≠ 0 then
        { buffer := print promptCapacity choice.buffer (entryText other name)
          count := choice.count + 1 }
      else choice

def offerChoice (server : Server) (slot : Slot) : Choice :=
  (List.finRange 16).foldl (offerUser server slot)
    { buffer := print promptCapacity .empty selectUserText, count := 0 }

def choiceSent (choice : Choice) : Option (List (Option UInt8)) :=
  if 0 < choice.count then
    some ((List.range choice.buffer.written.toNat).map choice.buffer.cells)
  else none

structure Choice.Fits (choice : Choice) : Prop where
  calls : ∀ call ∈ choice.buffer.prints, call.Fits promptCapacity
  sent : ∀ cells, choiceSent choice = some cells →
    cells.length ≤ promptCapacity ∧ ∀ cell ∈ cells, cell.isSome

def listedLength : List (Slot × List UInt8) → Nat
  | [] => 0
  | (_, name) :: rest => 7 + strlen name + listedLength rest

def entryTexts (server : Server) (slot : Slot) : List (List UInt8) :=
  (promptEntries server slot).map fun entry => entryText entry.1 entry.2

@[simp] theorem length_slotNumber (slot : Slot) : (slotNumber slot).length = 3 := by
  revert slot
  decide

@[simp] theorem length_entryText (slot : Slot) (name : List UInt8) :
    (entryText slot name).length = 7 + strlen name := by
  have dash : (asciiText " - ").length = 3 := by decide
  simp only [entryText, List.length_append, length_slotNumber, dash, List.length_singleton, strlen]
  omega

theorem length_selectUserText : selectUserText.length = 13 := by decide

def offerEntry (choice : Choice) (entry : Slot × List UInt8) : Choice :=
  { buffer := print promptCapacity choice.buffer (entryText entry.1 entry.2)
    count := choice.count + 1 }

theorem offerUser_eq (server : Server) (slot other : Slot) (choice : Choice) :
    offerUser server slot choice other =
      (if other = slot ∨ (server.loggedIn other).fd = 0 then none
        else (server.loggedIn other).name.map fun name => (other, name)).elim choice
          (offerEntry choice) := by
  unfold offerUser
  by_cases same : slot = other
  next => simp [same]
  next =>
    by_cases gone : (server.loggedIn other).fd = 0
    next => cases named : (server.loggedIn other).name <;> simp [same, gone, named]
    next =>
      cases named : (server.loggedIn other).name <;>
        simp [same, Ne.symm same, gone, named, offerEntry]

theorem foldl_offerEntry (entries : List (Slot × List UInt8)) (choice : Choice) :
    entries.foldl offerEntry choice =
      { buffer := (entries.map fun entry => entryText entry.1 entry.2).foldl
          (print promptCapacity) choice.buffer
        count := choice.count + entries.length } := by
  induction entries generalizing choice with
  | nil => rfl
  | cons entry rest ih =>
    rw [List.foldl_cons, ih]
    simp only [offerEntry, List.map_cons, List.foldl_cons, List.length_cons, Choice.mk.injEq,
      true_and]
    omega

theorem offerChoice_eq (server : Server) (slot : Slot) :
    offerChoice server slot =
      { buffer := printAll promptCapacity (selectUserText :: entryTexts server slot)
        count := (promptEntries server slot).length } := by
  have entries := foldl_offerEntry (promptEntries server slot)
    { buffer := print promptCapacity .empty selectUserText, count := 0 }
  rw [Nat.zero_add] at entries
  rw [offerChoice, printAll, List.foldl_cons, entryTexts, ← entries, promptEntries,
    List.foldl_filterMap]
  congr 1
  funext choice other
  rw [offerUser_eq]
  generalize (if other = slot ∨ (server.loggedIn other).fd = 0 then none
    else (server.loggedIn other).name.map fun name => (other, name)) = listed
  cases listed <;> rfl

theorem entryTexts_length (server : Server) (slot : Slot) :
    (selectUserText :: entryTexts server slot).flatten.length =
      13 + listedLength (promptEntries server slot) := by
  rw [List.flatten_cons, List.length_append, length_selectUserText, entryTexts]
  induction promptEntries server slot with
  | nil => rfl
  | cons entry rest ih =>
    rw [List.map_cons, List.flatten_cons, List.length_append, length_entryText, listedLength]
    omega

theorem choiceSent_put {choice : Choice} (low : 0 ≤ choice.buffer.written)
    (high : choice.buffer.written ≤ promptCapacity)
    (put : ∀ index : Nat, (index : Int) < choice.buffer.written →
      (choice.buffer.cells index).isSome) {cells : List (Option UInt8)}
    (sent : choiceSent choice = some cells) :
    cells.length ≤ promptCapacity ∧ ∀ cell ∈ cells, cell.isSome := by
  simp only [choiceSent, Option.ite_none_right_eq_some, Option.some.injEq] at sent
  obtain ⟨-, rfl⟩ := sent
  constructor
  · rw [List.length_map, List.length_range]
    omega
  · intro cell member
    obtain ⟨index, below, rfl⟩ := List.mem_map.mp member
    rw [List.mem_range] at below
    apply put
    omega

theorem promptCapacity_small : promptCapacity < 18446744073709551616 := by decide

theorem offerChoice_fits (server : Server) (slot : Slot)
    (total : (selectUserText :: entryTexts server slot).flatten.length ≤ promptCapacity) :
    (offerChoice server slot).Fits := by
  have sound := printAll_sound promptCapacity_small _ total
  have written := printAll_written promptCapacity (selectUserText :: entryTexts server slot)
  rw [offerChoice_eq]
  constructor
  · exact sound.calls
  · intro cells
    apply choiceSent_put
    · rw [written]
      omega
    · rw [written]
      omega
    · exact sound.put

theorem offerChoice_total {server : Server} {slot : Slot} (fits : (offerChoice server slot).Fits) :
    (selectUserText :: entryTexts server slot).flatten.length ≤ promptCapacity := by
  have calls := fits.calls
  rw [offerChoice_eq] at calls
  exact total_le_of_calls _ calls

theorem offerChoice_fits_iff (server : Server) (slot : Slot) :
    (offerChoice server slot).Fits ↔
      13 + listedLength (promptEntries server slot) ≤ 512 := by
  rw [← entryTexts_length]
  exact ⟨offerChoice_total, offerChoice_fits server slot⟩

theorem offerChoice_sends (server : Server) (slot : Slot)
    (some : promptEntries server slot ≠ [])
    (room : 13 + listedLength (promptEntries server slot) < 512) :
    choiceSent (offerChoice server slot) = Option.some
      ((selectUserText :: entryTexts server slot).flatten.map Option.some) := by
  rw [← entryTexts_length] at room
  have holds := printAll_holds promptCapacity_small _ room
  have listed : 0 < (promptEntries server slot).length := List.length_pos_iff.mpr some
  rw [offerChoice_eq, choiceSent, if_pos listed]
  dsimp only
  rw [holds.1, Int.toNat_natCast, holds.cells_eq]

theorem choiceSent_isSome (server : Server) (slot : Slot) :
    (choiceSent (offerChoice server slot)).isSome ↔ promptEntries server slot ≠ [] := by
  rw [offerChoice_eq, choiceSent]
  simp [List.length_pos_iff]

def longName : List UInt8 := List.replicate 254 97

def longNames : Server :=
  { initialServer plainSystem with
    loggedIn := fun slot =>
      match slot.val with
      | 0 => { fd := 4, name := some longName, toFd := fdAwaiting }
      | 1 => { fd := 5, name := some longName, toFd := fdAwaiting }
      | 2 => { fd := 6, name := some [98], toFd := fdAwaiting }
      | _ => noUser }

theorem offerChoice_fits_fails :
    ¬ ∀ (server : Server) (slot : Slot),
      (∀ other name, (server.loggedIn other).name = some name →
        0 ∉ name ∧ name.length ≤ 254) → (offerChoice server slot).Fits := by
  intro fits
  have clean : 0 ∉ longName ∧ longName.length ≤ 254 :=
    ⟨fun member => absurd (List.eq_of_mem_replicate member) (by decide), List.length_replicate.le⟩
  have names : ∀ other name, (longNames.loggedIn other).name = some name →
      0 ∉ name ∧ name.length ≤ 254 := by
    intro other name named
    simp only [longNames] at named
    split at named
    next => exact Option.some.inj named ▸ clean
    next => exact Option.some.inj named ▸ clean
    next => exact Option.some.inj named ▸ by decide
    next => simp [noUser] at named
  have total := offerChoice_total (fits longNames 2 names)
  have entries : promptEntries longNames 2 = [(0, longName), (1, longName)] := rfl
  have length : strlen longName = 254 := by
    rw [strlen, cstring_eq_self clean.1, longName, List.length_replicate]
  rw [entryTexts_length, entries] at total
  simp [listedLength, length, promptCapacity] at total

end Akiso.Minitalk
