import Mathlib.Data.List.Basic

set_option autoImplicit false

/-!
# Splitting a text with escapes

A text is read left to right; an escape symbol pairs with the symbol after it. `pieces` cuts the
text at every unpaired delimiter and decodes each piece. `gather` is the same split, computed in
one pass from a piece that is already open.
-/

namespace Akiso.Escape

variable {A : Type}

inductive Item (A : Type) where
  | plain (symbol : A)
  | pair (symbol : A)
  | lone
  deriving DecidableEq, Repr

def itemsFrom [DecidableEq A] (escape : A) : Bool → List A → List (Item A)
  | false, [] => []
  | true, [] => [.lone]
  | false, symbol :: rest =>
    if symbol = escape then itemsFrom escape true rest
    else .plain symbol :: itemsFrom escape false rest
  | true, symbol :: rest => .pair symbol :: itemsFrom escape false rest

def items [DecidableEq A] (escape : A) (text : List A) : List (Item A) :=
  itemsFrom escape false text

def Item.text (escape : A) : Item A → List A
  | .plain symbol => [symbol]
  | .pair symbol => [escape, symbol]
  | .lone => [escape]

def Item.decode [DecidableEq A] (escape : A) (delimiter : A → Bool) : Item A → List A
  | .plain symbol => [symbol]
  | .pair symbol => if delimiter symbol ∨ symbol = escape then [symbol] else [escape, symbol]
  | .lone => [escape]

def Item.cuts (delimiter : A → Bool) : Item A → Bool
  | .plain symbol => delimiter symbol
  | .pair _ => false
  | .lone => false

def decodeAll [DecidableEq A] (escape : A) (delimiter : A → Bool) (piece : List (Item A)) :
    List A :=
  piece.flatMap (Item.decode escape delimiter)

def keep (keepEmpty : Bool) (cut : List (List (Item A))) : List (List (Item A)) :=
  if keepEmpty then cut else cut.filter fun piece => !piece.isEmpty

def split [DecidableEq A] (escape : A) (delimiter : A → Bool) (keepEmpty : Bool)
    (units : List (Item A)) : List (List A) :=
  (keep keepEmpty (units.splitOnP (Item.cuts delimiter))).map (decodeAll escape delimiter)

def pieces [DecidableEq A] (escape : A) (delimiter : A → Bool) (keepEmpty : Bool)
    (text : List A) : List (List A) :=
  split escape delimiter keepEmpty (items escape text)

def gather [DecidableEq A] (escape : A) (delimiter : A → Bool) (keepEmpty : Bool) :
    Option (List A) → List (Item A) → List (List A)
  | none, [] => if keepEmpty then [[]] else []
  | some current, [] => [current]
  | current, unit :: rest =>
    if unit.cuts delimiter then
      match current with
      | some piece => piece :: gather escape delimiter keepEmpty none rest
      | none =>
        if keepEmpty then [] :: gather escape delimiter keepEmpty none rest
        else gather escape delimiter keepEmpty none rest
    else
      gather escape delimiter keepEmpty
        (some (current.getD [] ++ unit.decode escape delimiter)) rest

section Gather

variable [DecidableEq A] (escape : A) (delimiter : A → Bool) (keepEmpty : Bool)

theorem gather_open (units : List (Item A)) (current : List A) :
    gather escape delimiter keepEmpty (some current) units =
      (current ++ decodeAll escape delimiter (units.splitOnP (Item.cuts delimiter)).head!) ::
        (keep keepEmpty (units.splitOnP (Item.cuts delimiter)).tail).map
          (decodeAll escape delimiter) ∧
    gather escape delimiter keepEmpty none units = split escape delimiter keepEmpty units := by
  induction units generalizing current with
  | nil => cases keepEmpty <;> simp [gather, split, keep, decodeAll]
  | cons unit rest ih =>
    obtain ⟨head, tail, cut⟩ :=
      List.exists_cons_of_ne_nil (List.splitOnP_ne_nil (Item.cuts delimiter) rest)
    by_cases cutting : unit.cuts delimiter
    next =>
      have closed := (ih []).2
      cases keepEmpty <;>
        simp [gather, split, cutting, List.splitOnP_cons_eq_if_modifyHead, closed, keep, decodeAll]
    next =>
      have opened (prior : List A) := (ih prior).1
      cases keepEmpty <;>
        simp [gather, split, cutting, List.splitOnP_cons_eq_if_modifyHead, opened, keep, decodeAll,
          cut, List.append_assoc]

theorem gather_none (units : List (Item A)) :
    gather escape delimiter keepEmpty none units = split escape delimiter keepEmpty units :=
  (gather_open escape delimiter keepEmpty units []).2

theorem gather_grows (units : List (Item A)) (current : List A) :
    ∃ more tail, gather escape delimiter keepEmpty (some current) units =
      (current ++ more) :: tail :=
  ⟨_, _, (gather_open escape delimiter keepEmpty units current).1⟩

theorem decode_ne_nil (unit : Item A) : unit.decode escape delimiter ≠ [] := by
  cases unit with
  | plain | lone => simp [Item.decode]
  | pair symbol => by_cases h : delimiter symbol ∨ symbol = escape <;> simp [Item.decode, h]

theorem gather_start (unit : Item A) (rest : List (Item A)) (stays : unit.cuts delimiter = false) :
    gather escape delimiter keepEmpty none (unit :: rest) =
        gather escape delimiter keepEmpty (some []) (unit :: rest) ∧
      ∃ piece tail, piece ≠ [] ∧
        gather escape delimiter keepEmpty none (unit :: rest) = piece :: tail := by
  refine ⟨by simp [gather, stays], ?_⟩
  obtain ⟨more, tail, grown⟩ :=
    gather_grows escape delimiter keepEmpty rest (unit.decode escape delimiter)
  refine ⟨_, tail, ?_, by simpa [gather, stays] using grown⟩
  simp [decode_ne_nil]

theorem split_ne_nil (units : List (Item A)) : split escape delimiter true units ≠ [] := by
  simp [split, keep]

theorem split_filled (units : List (Item A)) :
    ∀ piece ∈ split escape delimiter false units, piece ≠ [] := by
  intro piece member
  simp only [split, keep, Bool.false_eq_true, if_false, List.mem_map, List.mem_filter,
    Bool.not_eq_true', List.isEmpty_eq_false_iff] at member
  obtain ⟨cut, ⟨-, filled⟩, rfl⟩ := member
  obtain ⟨unit, rest, rfl⟩ := List.exists_cons_of_ne_nil filled
  simp [decodeAll, decode_ne_nil]

omit [DecidableEq A] in
theorem flatten_splitOnP {B : Type} (p : B → Bool) (units : List B) :
    (units.splitOnP p).flatten = units.filter fun unit => !p unit := by
  induction units with
  | nil => simp
  | cons unit rest ih =>
    obtain ⟨head, tail, cut⟩ := List.exists_cons_of_ne_nil (List.splitOnP_ne_nil p rest)
    rw [List.splitOnP_cons_eq_if_modifyHead]
    by_cases cutting : p unit = true <;> simp_all

theorem flatten_split (units : List (Item A)) :
    (split escape delimiter keepEmpty units).flatten =
      decodeAll escape delimiter (units.filter fun unit => !unit.cuts delimiter) := by
  have whole : (keep keepEmpty (units.splitOnP (Item.cuts delimiter))).flatten =
      units.filter fun unit => !unit.cuts delimiter := by
    rw [← flatten_splitOnP]
    cases keepEmpty
    next => exact List.flatten_filter_not_isEmpty
    next => simp [keep]
  rw [split, ← whole]
  induction keep keepEmpty (units.splitOnP (Item.cuts delimiter)) with
  | nil => rfl
  | cons piece rest ih => simp_all [decodeAll]

end Gather

theorem splitOnP_cases {B : Type} (p : B → Bool) (units : List B) :
    (units.splitOnP p = [units] ∧ ∀ unit ∈ units, p unit = false) ∨
      ∃ before separator after, units = before ++ separator :: after ∧ p separator = true ∧
        (∀ unit ∈ before, p unit = false) ∧ units.splitOnP p = before :: after.splitOnP p := by
  cases found : units.find? p with
  | none =>
    have stays : ∀ unit ∈ units, p unit = false := by simpa using found
    exact .inl ⟨List.splitOnP_eq_singleton stays, stays⟩
  | some separator =>
    obtain ⟨cuts, before, after, rfl, stays⟩ := List.find?_eq_some_iff_append.mp found
    have stays : ∀ unit ∈ before, p unit = false := by simpa using stays
    exact .inr ⟨before, separator, after, rfl, cuts, stays,
      List.splitOnP_append_cons_of_forall_mem stays separator cuts after⟩

theorem splitOnP_pair {B : Type} (p : B → Bool) (units before after : List B) :
    units.splitOnP p = [before, after] ↔
      ∃ separator, units = before ++ separator :: after ∧ p separator = true ∧
        (∀ unit ∈ before, p unit = false) ∧ ∀ unit ∈ after, p unit = false := by
  constructor
  · intro cut
    rcases splitOnP_cases p units with
      ⟨whole, -⟩ | ⟨first, separator, rest, rfl, cuts, stays, split⟩
    · simp [whole] at cut
    rw [split, List.cons.injEq] at cut
    obtain ⟨rfl, cut⟩ := cut
    rcases splitOnP_cases p rest with ⟨whole, clear⟩ | ⟨second, -, last, -, -, -, split⟩
    · obtain rfl : rest = after := by simpa [whole] using cut
      exact ⟨separator, rfl, cuts, stays, clear⟩
    · simp [split, List.splitOnP_ne_nil] at cut
  · rintro ⟨separator, rfl, cuts, stays, clear⟩
    rw [List.splitOnP_append_cons_of_forall_mem stays separator cuts,
      List.splitOnP_eq_singleton clear]

theorem splitOnP_intercalate {B : Type} (p : B → Bool) (separator : B) (cuts : p separator = true)
    (segments : List (List B)) (some : segments ≠ [])
    (stays : ∀ segment ∈ segments, ∀ unit ∈ segment, p unit = false) :
    ([separator].intercalate segments).splitOnP p = segments := by
  induction segments with
  | nil => exact absurd rfl some
  | cons segment rest ih =>
    cases rest with
    | nil => simpa using List.splitOnP_eq_singleton (stays segment (by simp))
    | cons other rest =>
      have tail := ih (by simp) fun later member => stays later (by simp_all)
      rw [List.intercalate_cons_cons, List.append_assoc, List.singleton_append,
        List.splitOnP_append_cons_of_forall_mem (stays segment (by simp)) separator cuts, tail]

theorem flatMap_led {B : Type} (separator : B) (segments : List (List B)) :
    segments.flatMap (separator :: ·) = [separator].intercalate ([] :: segments) := by
  cases segments with
  | nil => simp
  | cons segment rest =>
    rw [List.intercalate_cons_cons]
    induction rest generalizing segment with
    | nil => simp
    | cons other rest ih =>
      have tail := ih other
      simp only [List.nil_append, List.flatMap_cons, List.cons_append] at tail ⊢
      rw [List.intercalate_cons_cons, List.append_assoc, List.singleton_append, ← tail]

theorem splitOnP_led {B : Type} (p : B → Bool) (separator : B) (cuts : p separator = true)
    (segments : List (List B)) (stays : ∀ segment ∈ segments, ∀ unit ∈ segment, p unit = false) :
    (segments.flatMap (separator :: ·)).splitOnP p = [] :: segments := by
  rw [flatMap_led]
  apply splitOnP_intercalate p separator cuts _ (by simp)
  intro segment member
  rcases List.mem_cons.mp member with rfl | member
  · simp
  · exact stays segment member

theorem mem_intercalate {B : Type} (separator unit : B) (segments : List (List B))
    (member : unit ∈ [separator].intercalate segments) :
    unit = separator ∨ ∃ segment ∈ segments, unit ∈ segment := by
  induction segments with
  | nil => simp at member
  | cons segment rest ih =>
    cases rest with
    | nil => exact .inr ⟨segment, by simp, by simpa using member⟩
    | cons other rest =>
      simp only [List.intercalate_cons_cons, List.mem_append, List.mem_singleton] at member
      rcases member with (found | found) | found
      · exact .inr ⟨segment, by simp, found⟩
      · exact .inl found
      · rcases ih found with same | ⟨later, inside, found⟩
        · exact .inl same
        · exact .inr ⟨later, by simp [inside], found⟩

theorem flatMap_intercalate {B C : Type} (f : B → List C) (separator : B)
    (segments : List (List B)) :
    ([separator].intercalate segments).flatMap f =
      (f separator).intercalate (segments.map fun segment => segment.flatMap f) := by
  induction segments with
  | nil => simp
  | cons segment rest ih => cases rest <;> simp_all [List.intercalate_cons_cons]

section Reading

variable [DecidableEq A] (escape : A)

def Item.Regular : Item A → Prop
  | .plain symbol => symbol ≠ escape
  | .pair _ => True
  | .lone => False

theorem items_append_text (units : List (Item A)) (regular : ∀ unit ∈ units, unit.Regular escape)
    (rest : List A) :
    items escape (units.flatMap (Item.text escape) ++ rest) = units ++ items escape rest := by
  induction units with
  | nil => rfl
  | cons unit units ih =>
    have tail := ih fun other member => regular other (by simp [member])
    have head := regular unit (by simp)
    cases unit with
    | plain symbol =>
      have other : symbol ≠ escape := head
      simpa [items, itemsFrom, Item.text, other] using tail
    | pair symbol => simpa [items, itemsFrom, Item.text] using tail
    | lone => exact absurd head (by simp [Item.Regular])

theorem itemsFrom_end (text : List A) (pending : Bool) :
    ∃ units last, itemsFrom escape pending (text ++ [escape]) = units ++ [last] ∧
      (last = .lone ∨ last = .pair escape) := by
  induction text generalizing pending with
  | nil =>
    cases pending
    next => exact ⟨[], .lone, by simp [itemsFrom], .inl rfl⟩
    next => exact ⟨[], .pair escape, by simp [itemsFrom], .inr rfl⟩
  | cons symbol rest ih =>
    cases pending
    next =>
      by_cases same : symbol = escape
      · obtain ⟨units, last, read, kind⟩ := ih true
        exact ⟨units, last, by simp [itemsFrom, same, read], kind⟩
      · obtain ⟨units, last, read, kind⟩ := ih false
        exact ⟨.plain symbol :: units, last, by simp [itemsFrom, same, read], kind⟩
    next =>
      obtain ⟨units, last, read, kind⟩ := ih false
      exact ⟨.pair symbol :: units, last, by simp [itemsFrom, read], kind⟩

theorem getLast_pieces_escape (delimiter : A → Bool) (keepEmpty : Bool) (text : List A) :
    (pieces escape delimiter keepEmpty (text ++ [escape])).flatten.getLast? = some escape := by
  obtain ⟨units, last, read, kind⟩ := itemsFrom_end escape text false
  rw [pieces, flatten_split, items, read]
  rcases kind with rfl | rfl <;>
    simp [decodeAll, List.filter_append, Item.cuts, Item.decode, List.getLast?_append]

theorem mem_items (text : List A) (pending : Bool) (delimiter : A → Bool) (symbol : A)
    (member : symbol ∈ decodeAll escape delimiter (itemsFrom escape pending text)) :
    symbol ∈ text ∨ symbol = escape := by
  induction text generalizing pending with
  | nil => cases pending <;> simp_all [itemsFrom, decodeAll, Item.decode]
  | cons first rest ih =>
    simp only [decodeAll] at ih
    cases pending
    next =>
      by_cases same : first = escape
      · simp only [itemsFrom, same, if_true, decodeAll] at member
        rcases ih true member with found | found <;> simp [found]
      · simp only [itemsFrom, same, if_false, decodeAll, List.flatMap_cons, List.mem_append,
          Item.decode, List.mem_singleton] at member
        rcases member with found | member
        · simp [found]
        · rcases ih false member with found | found <;> simp [found]
    next =>
      simp only [itemsFrom, decodeAll, List.flatMap_cons, List.mem_append, Item.decode] at member
      rcases member with found | member
      · split at found <;> simp_all
        tauto
      · rcases ih false member with found | found <;> simp [found]

theorem mem_pieces (delimiter : A → Bool) (keepEmpty : Bool) (text piece : List A) (symbol : A)
    (inside : piece ∈ pieces escape delimiter keepEmpty text) (member : symbol ∈ piece) :
    symbol ∈ text ∨ symbol = escape := by
  have flat : symbol ∈ (pieces escape delimiter keepEmpty text).flatten :=
    List.mem_flatten.mpr ⟨piece, inside, member⟩
  rw [pieces, flatten_split] at flat
  apply mem_items escape text false delimiter symbol
  simp only [decodeAll, List.mem_flatMap, List.mem_filter] at flat ⊢
  obtain ⟨unit, ⟨found, -⟩, decoded⟩ := flat
  exact ⟨unit, found, decoded⟩

end Reading

end Akiso.Escape
