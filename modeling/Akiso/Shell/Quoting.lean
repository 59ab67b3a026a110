import Akiso.Shell.Line
import Mathlib.Data.List.Chain
import Mathlib.Data.List.ReduceOption

set_option autoImplicit false

namespace Akiso.Shell

open CString Escape

def special (c : UInt8) : Bool :=
  charInSet c whitespace || c == bar || c == backslash

def quoteWord (word : List UInt8) : List UInt8 :=
  word.flatMap fun c => if special c then [backslash, c] else [c]

def quoteCommand (words : List (List UInt8)) : List UInt8 :=
  [space].intercalate (words.map quoteWord)

def quoteLine (commands : List (List (List UInt8))) : List UInt8 :=
  [bar].intercalate (commands.map quoteCommand)

-- The words of a command as one stream; `none` stands between two words.
def stream (words : List (List UInt8)) : List (Option UInt8) :=
  [none].intercalate (words.map fun word => word.map some)

def once : Option UInt8 → List UInt8
  | none => [space]
  | some c => if c ∈ whitespace then [backslash, c] else [c]

def onceCommand (words : List (List UInt8)) : List UInt8 :=
  (stream words).flatMap once

def reparse : List (Option UInt8) → List (Item UInt8)
  | [] => []
  | none :: rest => .plain space :: reparse rest
  | [some c] =>
    if c = backslash then [.lone] else if c ∈ whitespace then [.pair c] else [.plain c]
  | some c :: none :: rest =>
    if c = backslash then .pair space :: reparse rest
    else (if c ∈ whitespace then .pair c else .plain c) :: reparse (none :: rest)
  | some c :: some d :: rest =>
    if c = backslash then
      -- A backslash of a word takes the next character, or its backslash, with it.
      if d ∈ whitespace then .pair backslash :: .plain d :: reparse rest
      else .pair d :: reparse rest
    else (if c ∈ whitespace then .pair c else .plain c) :: reparse (some d :: rest)

theorem backslash_not_whitespace : backslash ∉ whitespace := by decide

theorem items_once_plain (c : UInt8) (rest : List UInt8) (other : c ≠ backslash) :
    items backslash (once (some c) ++ rest) =
      (if c ∈ whitespace then .pair c else .plain c) :: items backslash rest := by
  by_cases blank : c ∈ whitespace <;> simp [once, blank, other, items, itemsFrom]

theorem items_space (rest : List UInt8) :
    items backslash (once none ++ rest) = .plain space :: items backslash rest := by
  simp [once, items, itemsFrom, show space ≠ backslash by decide]

theorem items_once (symbols : List (Option UInt8)) :
    items backslash (symbols.flatMap once) = reparse symbols := by
  fun_induction reparse symbols with
  | case1 => rfl
  | case2 rest ih => rw [List.flatMap_cons, items_space, ih]
  | case3 => simp [once, backslash_not_whitespace, items, itemsFrom]
  | case4 c other blank => simp [once, blank, items, itemsFrom]
  | case5 c other text => simp [once, text, other, items, itemsFrom]
  | case6 rest ih =>
    simp [once, backslash_not_whitespace, items, itemsFrom] at ih ⊢
    exact ih
  | case7 c rest other ih =>
    rw [List.flatMap_cons, items_once_plain c _ other, ih]
  | case8 d rest blank ih =>
    have plain : d ≠ backslash := by rintro rfl; exact backslash_not_whitespace blank
    simp [once, backslash_not_whitespace, blank, plain, items, itemsFrom] at ih ⊢
    exact ih
  | case9 d rest text ih =>
    simp [once, backslash_not_whitespace, text, items, itemsFrom] at ih ⊢
    exact ih
  | case10 c d rest other ih =>
    rw [List.flatMap_cons, items_once_plain c _ other, ih]

def Follows (first second : Option UInt8) : Prop :=
  first = some backslash → ∃ c, second = some c ∧ c ≠ backslash ∧ c ∉ whitespace

theorem follows_of_other (c : UInt8) (second : Option UInt8) (other : c ≠ backslash) :
    Follows (some c) second := by
  simp [Follows, other]

-- Every loss of the second split costs a backslash or a whitespace character.
def weight (c : UInt8) : Nat :=
  if c = backslash then 2 else if c ∈ whitespace then 1 else 0

def load (text : List UInt8) : Nat :=
  text.foldr (fun c total => weight c + total) 0

@[simp] theorem load_nil : load [] = 0 := rfl

@[simp] theorem load_cons (c : UInt8) (text : List UInt8) :
    load (c :: text) = weight c + load text := rfl

@[simp] theorem load_append (first second : List UInt8) :
    load (first ++ second) = load first + load second := by
  induction first with
  | nil => simp
  | cons c rest ih => simp [ih, Nat.add_assoc]

def kept (units : List (Item UInt8)) : List UInt8 :=
  decodeAll backslash (charInSet · whitespace)
    (units.filter fun unit => !unit.cuts (charInSet · whitespace))

@[simp] theorem kept_nil : kept [] = [] := rfl

@[simp] theorem kept_cons (unit : Item UInt8) (units : List (Item UInt8)) :
    kept (unit :: units) =
      (if unit.cuts (charInSet · whitespace) then []
        else unit.decode backslash (charInSet · whitespace)) ++ kept units := by
  cases cuts : unit.cuts (charInSet · whitespace) <;> simp [kept, decodeAll, cuts]

theorem load_plain (c : UInt8) (units : List (Item UInt8)) (other : c ≠ backslash) :
    load (kept ((if c ∈ whitespace then .pair c else .plain c) :: units)) =
      weight c + load (kept units) := by
  by_cases blank : c ∈ whitespace <;>
    simp [blank, other, weight, Item.cuts, Item.decode]

theorem load_reparse (symbols : List (Option UInt8)) :
    load (kept (reparse symbols)) ≤ load symbols.reduceOption ∧
      (load (kept (reparse symbols)) = load symbols.reduceOption → symbols.IsChain Follows) := by
  fun_induction reparse symbols with
  | case1 => simp
  | case2 rest ih =>
    have cuts : (Item.plain space).cuts (charInSet · whitespace) = true := by decide
    refine ⟨by simpa [cuts] using ih.1, fun same => ?_⟩
    refine List.isChain_cons.mpr ⟨fun _ _ => by simp [Follows], ih.2 ?_⟩
    simpa [cuts] using same
  | case3 => simp [Item.cuts, Item.decode]
  | case4 c other blank => simp [Item.cuts, Item.decode, blank]
  | case5 c other text => simp [Item.cuts, Item.decode, text]
  | case6 rest ih =>
    -- The separator is kept as a character and the backslash is gone.
    have lost : load (kept (.pair space :: reparse rest)) = 1 + load (kept (reparse rest)) := by
      have decoded : load ((Item.pair space).decode backslash (charInSet · whitespace)) = 1 := by
        decide
      simp [Item.cuts, decoded]
    have whole : load (some backslash :: none :: rest).reduceOption =
        2 + load rest.reduceOption := by
      simp [weight]
    rw [lost, whole]
    exact ⟨by omega, fun same => by omega⟩
  | case7 c rest other ih =>
    rw [load_plain c _ other]
    refine ⟨by simpa using ih.1, fun same => ?_⟩
    refine List.isChain_cons_cons.mpr ⟨follows_of_other c _ other, ih.2 ?_⟩
    simpa using same
  | case8 d rest blank ih =>
    have plain : d ≠ backslash := by rintro rfl; exact backslash_not_whitespace blank
    have lost : load (kept (.pair backslash :: .plain d :: reparse rest)) =
        2 + load (kept (reparse rest)) := by
      simp [Item.cuts, Item.decode, blank, weight]
    have whole : load (some backslash :: some d :: rest).reduceOption =
        2 + (1 + load rest.reduceOption) := by
      simp [weight, blank, plain]
    rw [lost, whole]
    exact ⟨by omega, fun same => by omega⟩
  | case9 d rest text ih =>
    by_cases again : d = backslash
    · have lost : load (kept (.pair d :: reparse rest)) = 2 + load (kept (reparse rest)) := by
        simp [again, Item.cuts, Item.decode, weight]
      have whole : load (some backslash :: some d :: rest).reduceOption =
          2 + (2 + load rest.reduceOption) := by
        simp [weight, again]
      rw [lost, whole]
      exact ⟨by omega, fun same => by omega⟩
    · have same : load (kept (.pair d :: reparse rest)) = 2 + load (kept (reparse rest)) := by
        simp [again, text, Item.cuts, Item.decode, weight]
      have whole : load (some backslash :: some d :: rest).reduceOption =
          2 + load rest.reduceOption := by
        simp [weight, again, text]
      rw [same, whole]
      refine ⟨by omega, fun equal => ?_⟩
      refine List.isChain_cons_cons.mpr ⟨fun _ => ⟨d, rfl, again, text⟩, ?_⟩
      exact List.isChain_cons.mpr ⟨fun _ _ => follows_of_other d _ again, ih.2 (by omega)⟩
  | case10 c d rest other ih =>
    rw [load_plain c _ other]
    refine ⟨by simpa using ih.1, fun same => ?_⟩
    refine List.isChain_cons_cons.mpr ⟨follows_of_other c _ other, ih.2 ?_⟩
    simpa using same

def wordsFrom : Option (List UInt8) → List (Option UInt8) → List (List UInt8)
  | none, [] => []
  | some word, [] => [word]
  | none, none :: rest => wordsFrom none rest
  | some word, none :: rest => word :: wordsFrom none rest
  | current, some c :: rest => wordsFrom (some (current.getD [] ++ [c])) rest

theorem wordsFrom_word (word : List UInt8) (current : List UInt8) (rest : List (Option UInt8)) :
    wordsFrom (some current) (word.map some ++ rest) = wordsFrom (some (current ++ word)) rest := by
  induction word generalizing current with
  | nil => simp
  | cons c word ih => simp [wordsFrom, ih]

theorem wordsFrom_stream (words : List (List UInt8)) (filled : ∀ word ∈ words, word ≠ []) :
    wordsFrom none (stream words) = words := by
  induction words with
  | nil => rfl
  | cons word rest ih =>
    obtain ⟨c, tail, rfl⟩ := List.exists_cons_of_ne_nil (filled word (by simp))
    have later := ih fun other member => filled other (by simp [member])
    cases rest with
    | nil =>
      have read := wordsFrom_word tail [c] []
      simpa [stream, wordsFrom] using read
    | cons other rest =>
      have read := wordsFrom_word tail [c] (none :: stream (other :: rest))
      simp only [stream, List.map_cons, List.intercalate_cons_cons] at read later ⊢
      simpa [wordsFrom, later] using read

theorem gather_plain (c : UInt8) (units : List (Item UInt8)) (current : Option (List UInt8)) :
    gather backslash (charInSet · whitespace) false current
        ((if c ∈ whitespace then .pair c else .plain c) :: units) =
      gather backslash (charInSet · whitespace) false (some (current.getD [] ++ [c])) units := by
  by_cases blank : c ∈ whitespace <;>
    cases current <;> simp [gather, Item.cuts, Item.decode, blank]

theorem gather_reparse (symbols : List (Option UInt8)) (safe : symbols.IsChain Follows)
    (current : Option (List UInt8)) :
    gather backslash (charInSet · whitespace) false current (reparse symbols) =
      wordsFrom current symbols := by
  fun_induction reparse symbols generalizing current with
  | case1 => cases current <;> simp [gather, wordsFrom]
  | case2 rest ih =>
    have cuts : (Item.plain space).cuts (charInSet · whitespace) = true := by decide
    have later := ih (List.isChain_cons.mp safe).2
    cases current <;> simp [gather, wordsFrom, cuts, later]
  | case3 => cases current <;> simp [gather, wordsFrom, Item.cuts, Item.decode]
  | case4 c other blank =>
    cases current <;> simp [gather, wordsFrom, Item.cuts, Item.decode, blank]
  | case5 c other text =>
    cases current <;> simp [gather, wordsFrom, Item.cuts, Item.decode, text]
  | case6 rest ih =>
    obtain ⟨c, impossible, -⟩ := (List.isChain_cons_cons.mp safe).1 rfl
    simp at impossible
  | case7 c rest other ih =>
    rw [gather_plain c _ current, ih (List.isChain_cons_cons.mp safe).2]
    cases current <;> simp [wordsFrom]
  | case8 d rest blank ih =>
    obtain ⟨c, same, -, text⟩ := (List.isChain_cons_cons.mp safe).1 rfl
    simp_all
  | case9 d rest text ih =>
    obtain ⟨c, same, other, -⟩ := (List.isChain_cons_cons.mp safe).1 rfl
    obtain rfl : d = c := by simpa using same
    have later := ih (List.isChain_cons.mp (List.isChain_cons_cons.mp safe).2).2
    cases current <;> simp [gather, wordsFrom, Item.cuts, Item.decode, text, other, later]
  | case10 c d rest other ih =>
    rw [gather_plain c _ current, ih (List.isChain_cons_cons.mp safe).2]
    cases current <;> simp [wordsFrom]

theorem reduceOption_stream (words : List (List UInt8)) :
    (stream words).reduceOption = words.flatten := by
  induction words with
  | nil => rfl
  | cons word rest ih =>
    cases rest with
    | nil => simp [stream, List.reduceOption]
    | cons other rest =>
      simp only [stream, List.map_cons, List.intercalate_cons_cons] at ih ⊢
      simp only [List.reduceOption_append, ih]
      simp [List.reduceOption]

theorem flatten_wordsOf (stage : List UInt8) :
    (wordsOf stage).flatten = kept (items backslash stage) :=
  flatten_split backslash (charInSet · whitespace) false (items backslash stage)

theorem wordsOf_onceCommand (words : List (List UInt8)) (filled : ∀ word ∈ words, word ≠ []) :
    wordsOf (onceCommand words) = words ↔ (stream words).IsChain Follows := by
  constructor
  · intro same
    apply (load_reparse (stream words)).2
    rw [reduceOption_stream, ← items_once]
    change load (kept (items backslash (onceCommand words))) = _
    rw [← flatten_wordsOf, same]
  · intro safe
    rw [wordsOf, pieces, onceCommand, items_once, ← gather_none, gather_reparse _ safe,
      wordsFrom_stream words filled]

def unitOf (c : UInt8) : Item UInt8 :=
  if special c then .pair c else .plain c

def commandUnits (words : List (List UInt8)) : List (Item UInt8) :=
  [.plain space].intercalate (words.map fun word => word.map unitOf)

def lineUnits (commands : List (List (List UInt8))) : List (Item UInt8) :=
  [.plain bar].intercalate (commands.map commandUnits)

theorem unitOf_text (c : UInt8) :
    (unitOf c).text backslash = if special c then [backslash, c] else [c] := by
  cases kind : special c <;> simp [unitOf, kind, Item.text]

theorem quoteWord_eq (word : List UInt8) :
    quoteWord word = (word.map unitOf).flatMap (Item.text backslash) := by
  simp only [quoteWord, List.flatMap_map, unitOf_text]

theorem quoteCommand_eq (words : List (List UInt8)) :
    quoteCommand words = (commandUnits words).flatMap (Item.text backslash) := by
  rw [quoteCommand, commandUnits, flatMap_intercalate, List.map_map]
  exact congrArg _ (List.map_congr_left fun word _ => quoteWord_eq word)

theorem quoteLine_eq (commands : List (List (List UInt8))) :
    quoteLine commands = (lineUnits commands).flatMap (Item.text backslash) := by
  rw [quoteLine, lineUnits, flatMap_intercalate, List.map_map]
  exact congrArg _ (List.map_congr_left fun words _ => quoteCommand_eq words)

theorem mem_commandUnits (words : List (List UInt8)) (unit : Item UInt8)
    (member : unit ∈ commandUnits words) :
    unit = .plain space ∨ ∃ word ∈ words, ∃ c ∈ word, unit = unitOf c := by
  rcases mem_intercalate _ _ _ member with same | ⟨segment, inside, found⟩
  · exact .inl same
  · obtain ⟨word, isWord, rfl⟩ := List.mem_map.mp inside
    obtain ⟨c, letter, rfl⟩ := List.mem_map.mp found
    exact .inr ⟨word, isWord, c, letter, rfl⟩

theorem unitOf_regular (c : UInt8) : (unitOf c).Regular backslash := by
  by_cases same : c = backslash
  · simp [unitOf, special, same, Item.Regular]
  · cases kind : special c <;> simp [unitOf, kind, Item.Regular, same]

theorem lineUnits_regular (commands : List (List (List UInt8))) :
    ∀ unit ∈ lineUnits commands, unit.Regular backslash := by
  intro unit member
  rcases mem_intercalate _ _ _ member with rfl | ⟨segment, inside, found⟩
  · exact (by decide : bar ≠ backslash)
  · obtain ⟨words, -, rfl⟩ := List.mem_map.mp inside
    rcases mem_commandUnits words unit found with rfl | ⟨-, -, c, -, rfl⟩
    · exact (by decide : space ≠ backslash)
    · exact unitOf_regular c

theorem commandUnits_stays (words : List (List UInt8)) :
    ∀ unit ∈ commandUnits words, unit.cuts (charInSet · [bar]) = false := by
  intro unit member
  rcases mem_commandUnits words unit member with rfl | ⟨-, -, c, -, rfl⟩
  · decide
  · by_cases same : c = bar
    · simp [unitOf, special, same, Item.cuts]
    · cases kind : special c <;> simp [unitOf, kind, Item.cuts, charInSet, Ne.symm same]

theorem decode_unitOf (c : UInt8) :
    (unitOf c).decode backslash (charInSet · [bar]) = once (some c) := by
  by_cases blank : c ∈ whitespace
  · have other : c ≠ backslash := by rintro rfl; exact backslash_not_whitespace blank
    have noBar : c ≠ bar := by rintro rfl; exact absurd blank (by decide)
    simp [unitOf, special, blank, Item.decode, once, other, noBar]
  · by_cases same : c = backslash ∨ c = bar
    · rcases same with rfl | rfl <;> decide
    · simp only [not_or] at same
      simp [unitOf, special, blank, same, Item.decode, once]

theorem decode_commandUnits (words : List (List UInt8)) :
    decodeAll backslash (charInSet · [bar]) (commandUnits words) = onceCommand words := by
  rw [decodeAll, commandUnits, onceCommand, stream, flatMap_intercalate, flatMap_intercalate,
    List.map_map, List.map_map]
  refine congrArg _ (List.map_congr_left fun word _ => ?_)
  simp [List.flatMap_map, decode_unitOf]

theorem pieces_quoteLine (commands : List (List (List UInt8))) (some : commands ≠ []) :
    pieces backslash (charInSet · [bar]) true (quoteLine commands) =
      commands.map onceCommand := by
  have read := items_append_text backslash (lineUnits commands) (lineUnits_regular commands) []
  have none : items backslash ([] : List UInt8) = [] := rfl
  rw [List.append_nil, none, List.append_nil] at read
  rw [pieces, quoteLine_eq, read, split, lineUnits,
    splitOnP_intercalate _ _ (by decide) _ (by simpa using some)]
  · simp [keep, decode_commandUnits]
  · intro segment inside
    obtain ⟨words, -, rfl⟩ := List.mem_map.mp inside
    exact commandUnits_stays words

end Akiso.Shell
