import Akiso.Shared.Escape

set_option autoImplicit false

/-!
# The split of a longer text

What the pieces of a text become when symbols are added at its end: symbols that cut nothing go to
the last piece, and trailing delimiters leave the pieces that are kept as they were.
-/

namespace Akiso.Escape

variable {A : Type} [DecidableEq A] (escape : A)

theorem splitOnP_append {B : Type} (p : B → Bool) (units : List B) :
    ∃ front last, units.splitOnP p = front ++ [last] ∧
      ∀ more, (∀ unit ∈ more, p unit = false) →
        (units ++ more).splitOnP p = front ++ [last ++ more] := by
  induction units with
  | nil => exact ⟨[], [], rfl, fun more stays => List.splitOnP_eq_singleton stays⟩
  | cons unit rest ih =>
    obtain ⟨front, last, cut, longer⟩ := ih
    by_cases cutting : p unit = true
    · refine ⟨[] :: front, last, ?_, fun more stays => ?_⟩
      · simp [List.splitOnP_cons_eq_if_modifyHead, cutting, cut]
      · simp [List.splitOnP_cons_eq_if_modifyHead, cutting, longer more stays]
    · cases front with
      | nil =>
        refine ⟨[], unit :: last, ?_, fun more stays => ?_⟩
        · simp [List.splitOnP_cons_eq_if_modifyHead, cutting, cut]
        · simp [List.splitOnP_cons_eq_if_modifyHead, cutting, longer more stays]
      | cons first front =>
        refine ⟨(unit :: first) :: front, last, ?_, fun more stays => ?_⟩
        · simp [List.splitOnP_cons_eq_if_modifyHead, cutting, cut]
        · simp [List.splitOnP_cons_eq_if_modifyHead, cutting, longer more stays]

-- A text ends settled, or with an escape that pairs with the next symbol.
theorem itemsFrom_append (text : List A) (pending : Bool) :
    (∀ tail, escape ∉ tail → itemsFrom escape pending (text ++ tail) =
        itemsFrom escape pending text ++ tail.map .plain) ∨
      ∃ units, itemsFrom escape pending text = units ++ [.lone] ∧
        ∀ symbol tail, escape ∉ tail → itemsFrom escape pending (text ++ symbol :: tail) =
          units ++ .pair symbol :: tail.map .plain := by
  have plainly : ∀ tail : List A, escape ∉ tail →
      itemsFrom escape false tail = tail.map .plain := by
    intro tail plain
    induction tail with
    | nil => rfl
    | cons symbol rest ih =>
      have other : symbol ≠ escape := fun same => plain (by simp [same])
      have later := ih fun member => plain (List.mem_cons_of_mem _ member)
      simp [itemsFrom, other, later]
  induction text generalizing pending with
  | nil =>
    cases pending
    next => exact Or.inl fun tail plain => plainly tail plain
    next =>
      refine Or.inr ⟨[], rfl, fun symbol tail plain => ?_⟩
      simp [itemsFrom, plainly tail plain]
  | cons first rest ih =>
    cases pending
    next =>
      by_cases same : first = escape
      · simpa [itemsFrom, same] using ih true
      · rcases ih false with settled | ⟨units, lone, paired⟩
        · exact Or.inl fun tail plain => by simp [itemsFrom, same, settled tail plain]
        · refine Or.inr ⟨.plain first :: units, ?_, fun symbol tail plain => ?_⟩
          · simp [itemsFrom, same, lone]
          · simp [itemsFrom, same, paired symbol tail plain]
    next =>
      rcases ih false with settled | ⟨units, lone, paired⟩
      · exact Or.inl fun tail plain => by simp [itemsFrom, settled tail plain]
      · refine Or.inr ⟨.pair first :: units, ?_, fun symbol tail plain => ?_⟩
        · simp [itemsFrom, lone]
        · simp [itemsFrom, paired symbol tail plain]

theorem items_settled {front : List A} {last : A} (other : last ≠ escape) {tail : List A}
    (plain : escape ∉ tail) :
    items escape (front ++ [last] ++ tail) = items escape (front ++ [last]) ++ tail.map .plain := by
  have longer : escape ∉ last :: tail := by simp [Ne.symm other, plain]
  rw [List.append_assoc, List.singleton_append, items]
  rcases itemsFrom_append escape front false with settled | ⟨units, -, paired⟩
  · rw [settled _ longer, items, settled [last] (by simpa using Ne.symm other)]
    simp
  · rw [paired _ _ plain, items, paired last [] (by simp)]
    simp

variable (delimiter : A → Bool)

theorem decodeAll_plain (tail : List A) :
    decodeAll escape delimiter (tail.map .plain) = tail := by
  induction tail with
  | nil => rfl
  | cons symbol rest ih =>
    rw [List.map_cons, decodeAll, List.flatMap_cons]
    exact congrArg (symbol :: ·) ih

theorem decodeAll_append (first second : List (Item A)) :
    decodeAll escape delimiter (first ++ second) =
      decodeAll escape delimiter first ++ decodeAll escape delimiter second :=
  List.flatMap_append

theorem pieces_append (text : List A) :
    ∃ front last, pieces escape delimiter true text = front ++ [last] ∧
      ∀ tail, (∀ symbol ∈ tail, delimiter symbol = false) → escape ∉ tail →
        pieces escape delimiter true (text ++ tail) = front ++ [last ++ tail] := by
  have plainly : ∀ tail : List A, (∀ symbol ∈ tail, delimiter symbol = false) →
      ∀ unit ∈ tail.map Item.plain, Item.cuts delimiter unit = false := by
    intro tail stays unit member
    obtain ⟨symbol, inside, rfl⟩ := List.mem_map.mp member
    exact stays symbol inside
  rcases itemsFrom_append escape text false with settled | ⟨units, lone, paired⟩
  · obtain ⟨front, last, cut, longer⟩ :=
      splitOnP_append (Item.cuts delimiter) (items escape text)
    refine ⟨front.map (decodeAll escape delimiter), decodeAll escape delimiter last, ?_, ?_⟩
    · simp [pieces, split, keep, cut]
    · intro tail stays plain
      have read : items escape (text ++ tail) = items escape text ++ tail.map .plain :=
        settled tail plain
      rw [pieces, split, keep, if_pos rfl, read, longer _ (plainly tail stays)]
      simp [decodeAll_append, decodeAll_plain]
  · obtain ⟨front, last, -, longer⟩ := splitOnP_append (Item.cuts delimiter) units
    have whole : (items escape text).splitOnP (Item.cuts delimiter) =
        front ++ [last ++ [.lone]] := by
      rw [items, lone]
      exact longer [.lone] (by simp [Item.cuts])
    refine ⟨front.map (decodeAll escape delimiter), decodeAll escape delimiter (last ++ [.lone]),
      by simp [pieces, split, keep, whole], ?_⟩
    intro tail stays plain
    cases tail with
    | nil => simp [pieces, split, keep, whole]
    | cons symbol rest =>
      have here := stays symbol List.mem_cons_self
      have other : symbol ≠ escape := fun same => plain (by simp [same])
      have later := plainly rest fun symbol member => stays symbol (List.mem_cons_of_mem _ member)
      have read : items escape (text ++ symbol :: rest) =
          units ++ (.pair symbol :: rest.map .plain) :=
        paired symbol rest fun member => plain (List.mem_cons_of_mem _ member)
      have stays : ∀ unit ∈ Item.pair symbol :: rest.map .plain, unit.cuts delimiter = false := by
        intro unit member
        rcases List.mem_cons.mp member with rfl | member
        · rfl
        · exact later unit member
      have decoded : decodeAll escape delimiter (.pair symbol :: rest.map .plain) =
          decodeAll escape delimiter [.lone] ++ symbol :: rest := by
        rw [← List.singleton_append, decodeAll_append, decodeAll_plain]
        simp [decodeAll, Item.decode, here, other]
      rw [pieces, split, keep, if_pos rfl, read, longer _ stays]
      simp [decodeAll_append, decoded]

theorem pieces_filled (text : List A) :
    pieces escape delimiter false text =
      (pieces escape delimiter true text).filter fun piece => !piece.isEmpty := by
  have same : ∀ cut : List (Item A),
      (!(decodeAll escape delimiter cut).isEmpty) = !cut.isEmpty := by
    intro cut
    cases cut with
    | nil => rfl
    | cons unit rest =>
      have filled : decodeAll escape delimiter (unit :: rest) ≠ [] := by
        simp [decodeAll, decode_ne_nil]
      simp [filled]
  simp only [pieces, split, keep, Bool.false_eq_true, if_false, if_true, List.filter_map]
  congr 1
  exact List.filter_congr fun cut _ => (same cut).symm

-- A symbol that neither cuts nor escapes lengthens the last piece, or is one of its own.
theorem pieces_extended (text : List A) {symbol : A} (stays : delimiter symbol = false)
    (other : symbol ≠ escape) :
    pieces escape delimiter false (text ++ [symbol]) =
        pieces escape delimiter false text ++ [[symbol]] ∨
      ∃ front last, pieces escape delimiter false text = front ++ [last] ∧
        pieces escape delimiter false (text ++ [symbol]) = front ++ [last ++ [symbol]] := by
  obtain ⟨front, last, cut, longer⟩ := pieces_append escape delimiter text
  have extended := longer [symbol] (by simpa using stays) (by simpa using Ne.symm other)
  rw [pieces_filled, pieces_filled, cut, extended, List.filter_append, List.filter_append]
  by_cases blank : last = []
  · exact Or.inl (by simp [blank])
  · exact Or.inr ⟨front.filter fun piece => !piece.isEmpty, last, by simp [blank], by simp⟩

theorem pieces_last (front : List A) {last : A} (other : last ≠ escape) :
    ∃ before piece, pieces escape delimiter true (front ++ [last]) = before ++ [piece] ∧
      (piece = [] ∨ piece.getLast? = some last) := by
  by_cases cutting : delimiter last = true
  · rcases itemsFrom_append escape front false with settled | ⟨units, -, paired⟩
    · have read : items escape (front ++ [last]) = items escape front ++ .plain last :: [] :=
        settled [last] (by simpa using Ne.symm other)
      refine ⟨pieces escape delimiter true front, [], ?_, Or.inl rfl⟩
      have cuts : (Item.plain last).cuts delimiter = true := cutting
      rw [pieces, split, keep, if_pos rfl, read, List.splitOnP_append_cons _ _ cuts]
      simp [pieces, split, keep, decodeAll]
    · have read : items escape (front ++ [last]) = units ++ [.pair last] :=
        paired last [] (by simp)
      obtain ⟨before, piece, -, longer⟩ := splitOnP_append (Item.cuts delimiter) units
      refine ⟨before.map (decodeAll escape delimiter), decodeAll escape delimiter piece ++ [last],
        ?_, Or.inr (by simp)⟩
      rw [pieces, split, keep, if_pos rfl, read, longer [.pair last] (by simp [Item.cuts])]
      simp [decodeAll, Item.decode, cutting]
  · obtain ⟨before, piece, -, longer⟩ := pieces_append escape delimiter front
    refine ⟨before, piece ++ [last], longer [last] ?_ ?_, Or.inr (by simp)⟩
    · simpa using cutting
    · simpa using Ne.symm other

theorem split_delimiters (units tail : List (Item A))
    (cutting : ∀ unit ∈ tail, unit.cuts delimiter = true) :
    split escape delimiter false (units ++ tail) = split escape delimiter false units := by
  induction tail generalizing units with
  | nil => rw [List.append_nil]
  | cons unit rest ih =>
    have later := ih (units ++ [unit]) fun other member => cutting other (by simp [member])
    rw [List.append_assoc, List.singleton_append] at later
    rw [later, split, split, List.splitOnP_append_cons _ _ (cutting unit List.mem_cons_self)]
    simp [keep]

theorem pieces_delimiters {front tail : List A} {last : A} (other : last ≠ escape)
    (cutting : ∀ symbol ∈ tail, delimiter symbol = true) (plain : escape ∉ tail) :
    pieces escape delimiter false (front ++ [last] ++ tail) =
      pieces escape delimiter false (front ++ [last]) := by
  rw [pieces, items_settled escape other plain, pieces]
  apply split_delimiters
  intro unit member
  obtain ⟨symbol, inside, rfl⟩ := List.mem_map.mp member
  exact cutting symbol inside

theorem pieces_nothing {tail : List A} (cutting : ∀ symbol ∈ tail, delimiter symbol = true)
    (plain : escape ∉ tail) : pieces escape delimiter false tail = [] := by
  have read : items escape ([] ++ tail) = tail.map .plain := by
    rcases itemsFrom_append escape [] false with settled | ⟨units, lone, -⟩
    · exact settled tail plain
    · simp [itemsFrom] at lone
  rw [List.nil_append] at read
  rw [pieces, read, ← List.nil_append (tail.map Item.plain), split_delimiters]
  · rfl
  · intro unit member
    obtain ⟨symbol, inside, rfl⟩ := List.mem_map.mp member
    exact cutting symbol inside

end Akiso.Escape
