import Akiso.Shell.Tokens

set_option autoImplicit false

namespace Akiso.Shell

open CString Escape

structure TokenArray where
  arguments : Option (List (Option (List UInt8)))
  argc : Nat
  deriving DecidableEq, Repr

def TokenArray.ofTokens (tokens : List (List UInt8)) : TokenArray :=
  { arguments := some (tokens.map some ++ [none]), argc := tokens.length }

def TokenArray.null : TokenArray := { arguments := none, argc := 0 }

def returned : Except Stop (List (List UInt8)) → Option TokenArray
  | .ok tokens => some (.ofTokens tokens)
  | .error .rejected => some .null
  | .error .overrun => none

-- The reference split: cut at every unpaired delimiter, drop the empty pieces unless they are kept,
-- decode.
def referenceSplit (delimeters : List UInt8) (allowEmpty : Bool) (command : List UInt8) :
    List (List UInt8) :=
  pieces backslash (charInSet · delimeters) allowEmpty command

def cutText (delimeters : List UInt8) (allowEmpty : Bool) (command : List UInt8) :
    List (List UInt8) :=
  split backslash (charInSet · delimeters) allowEmpty (unitsFrom delimeters false command)

theorem cutText_plain {delimeters : List UInt8} (plain : backslash ∉ delimeters)
    (allowEmpty : Bool) (command : List UInt8) :
    cutText delimeters allowEmpty command = referenceSplit delimeters allowEmpty command := by
  rw [cutText, unitsFrom_plain delimeters plain]
  rfl

theorem parseTokens_cutText (command delimeters : List UInt8) (allowEmpty : Bool)
    (clean : 0 ∉ command) :
    parseTokens command delimeters allowEmpty =
      verdict (cutText delimeters allowEmpty command) := by
  rw [parseTokens, parseTokens_past command delimeters allowEmpty clean (Nat.lt_succ_self _),
    verdictPast_slots, cutText]

theorem verdict_overrun_iff (tokens : List (List UInt8)) :
    verdict tokens = .error .overrun ↔ Overruns tokens := by
  unfold verdict
  by_cases few : tokens.length < maxArgs
  · have none : ¬ Overruns tokens := fun overruns => by
      have many := overruns.1
      omega
    simp [few, none]
  · by_cases overruns : Overruns tokens
    · simp [few, overruns]
    · simp [few, overruns]

/-- parse_tokens answers with the reference split if this leaves room for the NULL, and else with
NULL and the count 0. -/
theorem parseTokens_returned (command delimeters : List UInt8) (allowEmpty : Bool)
    (clean : 0 ∉ command) (plain : backslash ∉ delimeters)
    (stored : parseTokens command delimeters allowEmpty ≠ .error .overrun) :
    returned (parseTokens command delimeters allowEmpty) =
      let tokens := referenceSplit delimeters allowEmpty command
      if tokens.length < maxArgs then some (.ofTokens tokens) else some .null := by
  rw [parseTokens_cutText command delimeters allowEmpty clean, cutText_plain plain] at stored ⊢
  rw [Ne, verdict_overrun_iff] at stored
  dsimp only
  unfold verdict
  split
  next => rfl
  next => rfl

theorem parseTokens_returned_escapedSpace :
    returned (parseTokens [32, 97, 92, 32, 98, 32, 32, 99] whitespace false) =
      some { arguments := some [some [97, 32, 98], some [99], none], argc := 2 } := by
  refine (parseTokens_returned _ whitespace false (by decide) (by decide) (by decide)).trans ?_
  decide

def WithinSlots (command delimeters : List UInt8) (allowEmpty : Bool) : Prop :=
  parseTokens command delimeters allowEmpty ≠ .error .overrun

/-- The stores stay within the slots unless empty tokens are kept and two of them are where the
limit is reached, with one more token to come. -/
theorem withinSlots_iff (command delimeters : List UInt8) (allowEmpty : Bool)
    (clean : 0 ∉ command) :
    WithinSlots command delimeters allowEmpty ↔
      ¬ (allowEmpty = true ∧ Overruns (cutText delimeters true command)) := by
  rw [WithinSlots, Ne, parseTokens_cutText command delimeters allowEmpty clean,
    verdict_overrun_iff]
  cases allowEmpty with
  | true => simp
  | false =>
    have filled := split_filled backslash (charInSet · delimeters)
      (unitsFrom delimeters false command)
    have none : ¬ Overruns (cutText delimeters false command) := by
      rintro ⟨_, first, _⟩
      exact filled [] (List.mem_of_getElem? first) rfl
    simp [none]

theorem withinSlots_iff_bars :
    WithinSlots (List.replicate 20 bar) [bar] true ∧
      ¬ Overruns (cutText [bar] true (List.replicate 20 bar)) := by
  have few : ¬ Overruns (cutText [bar] true (List.replicate 20 bar)) := by decide
  exact ⟨(withinSlots_iff _ [bar] true (by decide)).mpr fun both => few both.2, few⟩

theorem withinSlots_fails : ¬ WithinSlots (List.replicate 21 bar) [bar] true := by
  unfold WithinSlots
  decide

end Akiso.Shell
