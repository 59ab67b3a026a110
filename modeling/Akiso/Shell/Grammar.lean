import Akiso.Shell.Line
import Akiso.Shell.Numbers

set_option autoImplicit false

namespace Akiso.Shell

open CString Escape Strtol

def Unescaped (mark : UInt8) (token : List UInt8) : Prop := .plain mark ∈ items backslash token

def IsWord (token : List UInt8) : Prop := ¬ Unescaped less token ∧ ¬ Unescaped greater token

instance (mark : UInt8) (token : List UInt8) : Decidable (Unescaped mark token) :=
  inferInstanceAs (Decidable (_ ∈ _))

instance : DecidablePred IsWord := fun _ => inferInstanceAs (Decidable (_ ∧ _))

def Sides (isOut : Bool) (token left right : List UInt8) : Prop :=
  let mark := redirectMark isOut
  ∃ before after, items backslash token = before ++ .plain mark :: after ∧
    .plain mark ∉ before ∧ .plain mark ∉ after ∧
    left = decodeAll backslash (charInSet · [mark]) before ∧
    right = decodeAll backslash (charInSet · [mark]) after

-- Nothing or an integer on the left; on the right a file name, or & and an integer.
def SidesRead (left right : List UInt8) : Prop :=
  (left = [] ∨ (written left).isSome) ∧
    ∃ first rest, right = first :: rest ∧ (first ≠ ampersand ∨ (written rest).isSome)

def IsRedirect (token : List UInt8) : Prop :=
  ∃ isOut, redirectMark (!isOut) ∉ token ∧
    ∃ left right, Sides isOut token left right ∧ SidesRead left right

def Sequence (word redirect : List UInt8 → Prop) (tokens : List (List UInt8)) : Prop :=
  ∃ words redirects, tokens = words ++ redirects ∧ words ≠ [] ∧ (∀ token ∈ words, word token) ∧
    ∀ token ∈ redirects, redirect token

def Grammar (tokens : List (List UInt8)) : Prop := Sequence IsWord IsRedirect tokens

-- What the loop takes for a word: the test does not look at the backslash.
def IsBare (token : List UInt8) : Prop := less ∉ token ∧ greater ∉ token

-- A redirect, but with any text on its sides: '<' is not looked for after '>'.
def IsAnyRedirect (token : List UInt8) : Prop :=
  ¬ IsBare token ∧
    ∃ left right, Sides (charInSet greater token) token left right ∧ SidesRead left right

theorem cuts_eq_false (mark : UInt8) (unit : Item UInt8) :
    unit.cuts (charInSet · [mark]) = false ↔ unit ≠ .plain mark := by
  cases unit with
  | plain symbol => simp [Item.cuts, Bool.eq_false_iff]
  | pair | lone => simp [Item.cuts]

theorem not_mem_iff_stays (mark : UInt8) (units : List (Item UInt8)) :
    .plain mark ∉ units ↔ ∀ unit ∈ units, unit.cuts (charInSet · [mark]) = false := by
  simp only [cuts_eq_false]
  constructor
  · rintro absent unit member rfl
    exact absent member
  · exact fun stays member => stays _ member rfl

theorem sides_iff (isOut : Bool) (token left right : List UInt8) :
    Sides isOut token left right ↔
      referenceSplit [redirectMark isOut] true token = [left, right] := by
  unfold Sides
  generalize redirectMark isOut = mark
  simp only [not_mem_iff_stays]
  constructor
  · rintro ⟨before, after, units, early, late, rfl, rfl⟩
    have cut := (splitOnP_pair (Item.cuts (charInSet · [mark])) _ before after).mpr
      ⟨.plain mark, units, by simp [Item.cuts], early, late⟩
    simp [referenceSplit, pieces, split, keep, cut]
  · intro sides
    obtain ⟨before, _, cut, rfl, tail⟩ := List.map_eq_cons_iff.mp sides
    obtain ⟨after, _, rfl, rfl, last⟩ := List.map_eq_cons_iff.mp tail
    obtain rfl := List.map_eq_nil_iff.mp last
    obtain ⟨separator, units, cuts, early, late⟩ := (splitOnP_pair _ _ _ _).mp cut
    obtain rfl : separator = .plain mark := by
      by_contra other
      simp [(cuts_eq_false mark separator).mpr other] at cuts
    exact ⟨before, after, units, early, late, rfl, rfl⟩

theorem parseRedirect_isSome_iff (str : List UInt8) (isOut : Bool) (clean : 0 ∉ str) :
    (∃ redirect, parseRedirect str isOut = .ok (some redirect)) ↔
      ∃ left right, Sides isOut str left right ∧ SidesRead left right := by
  simp only [parseRedirect_accepts_iff str isOut _ clean, sides_iff]
  constructor
  · rintro ⟨-, left, right, number, target, sides, numeral, aims, -⟩
    refine ⟨left, right, sides, ?_, ?_⟩
    · by_cases blank : left = []
      · exact .inl blank
      · rw [leftNumber, if_neg blank] at numeral
        exact .inr (by simp [numeral])
    · cases right with
      | nil => simp [targetOf] at aims
      | cons first rest =>
        refine ⟨first, rest, rfl, ?_⟩
        by_cases duplicates : first = ampersand
        · obtain ⟨value, read, -⟩ : ∃ value, written rest = some value ∧ _ := by
            simpa [targetOf, duplicates] using aims
          exact .inr (by simp [read])
        · exact .inl duplicates
  · rintro ⟨left, right, sides, leftRead, first, rest, rfl, rightRead⟩
    obtain ⟨number, numeral⟩ : ∃ number, leftNumber isOut left = some number := by
      unfold leftNumber
      by_cases blank : left = []
      · exact ⟨_, if_pos blank⟩
      · rw [if_neg blank]
        exact Option.isSome_iff_exists.mp (leftRead.resolve_left blank)
    obtain ⟨target, aims⟩ : ∃ target, targetOf (first :: rest) = some target := by
      by_cases duplicates : first = ampersand
      · obtain ⟨value, read⟩ :=
          Option.isSome_iff_exists.mp (rightRead.resolve_left (not_not_intro duplicates))
        exact ⟨.descriptor value, by simp [targetOf, duplicates, read]⟩
      · exact ⟨.file, by simp [targetOf, duplicates]⟩
    exact ⟨_, left, first :: rest, number, target, sides, numeral, aims, rfl⟩

theorem Sides.unescaped {isOut : Bool} {token left right : List UInt8}
    (sides : Sides isOut token left right) : Unescaped (redirectMark isOut) token := by
  obtain ⟨before, after, units, -⟩ := sides
  simp [Unescaped, units]

theorem itemsFrom_plain_subset (text : List UInt8) (pending : Bool) (symbol : UInt8)
    (member : .plain symbol ∈ itemsFrom backslash pending text) : symbol ∈ text := by
  induction text generalizing pending with
  | nil => cases pending <;> simp [itemsFrom] at member
  | cons first rest ih =>
    cases pending with
    | true =>
      simp only [itemsFrom, List.mem_cons, reduceCtorEq, false_or] at member
      exact List.mem_cons_of_mem _ (ih false member)
    | false =>
      by_cases escape : first = backslash
      · simp only [itemsFrom, escape, if_true] at member
        exact List.mem_cons_of_mem _ (ih true member)
      · simp only [itemsFrom, escape, if_false, List.mem_cons, Item.plain.injEq] at member ⊢
        exact member.imp id (ih false)

theorem Unescaped.mem {mark : UInt8} {token : List UInt8} (unescaped : Unescaped mark token) :
    mark ∈ token :=
  itemsFrom_plain_subset token false mark unescaped

theorem IsBare.isWord {token : List UInt8} (bare : IsBare token) : IsWord token :=
  ⟨fun unescaped => bare.1 unescaped.mem, fun unescaped => bare.2 unescaped.mem⟩

theorem Sides.not_isWord {isOut : Bool} {token left right : List UInt8}
    (sides : Sides isOut token left right) : ¬ IsWord token := by
  intro word
  have unescaped := sides.unescaped
  cases isOut with
  | true => exact word.2 unescaped
  | false => exact word.1 unescaped

theorem IsRedirect.isAnyRedirect {token : List UInt8} (redirect : IsRedirect token) :
    IsAnyRedirect token := by
  obtain ⟨isOut, other, left, right, sides, read⟩ := redirect
  have own := sides.unescaped.mem
  have decides : charInSet greater token = isOut := by
    cases isOut with
    | true => simpa [redirectMark] using own
    | false => simpa [redirectMark, Bool.eq_false_iff] using other
  refine ⟨fun bare => sides.not_isWord bare.isWord, left, right, ?_, read⟩
  rwa [decides]

theorem IsAnyRedirect.isRedirect {token : List UInt8} (redirect : IsAnyRedirect token)
    (one : ¬ (less ∈ token ∧ greater ∈ token)) : IsRedirect token := by
  obtain ⟨-, left, right, sides, read⟩ := redirect
  have own := sides.unescaped.mem
  refine ⟨_, ?_, left, right, sides, read⟩
  cases decides : charInSet greater token with
  | true => exact fun other => one ⟨other, by simpa using decides⟩
  | false => simpa [redirectMark, Bool.eq_false_iff] using decides

theorem IsAnyRedirect.not_isWord {token : List UInt8} (redirect : IsAnyRedirect token) :
    ¬ IsWord token := by
  obtain ⟨-, left, right, sides, -⟩ := redirect
  exact sides.not_isWord

theorem IsRedirect.one {token : List UInt8} (redirect : IsRedirect token) :
    ¬ (less ∈ token ∧ greater ∈ token) := by
  obtain ⟨isOut, other, -⟩ := redirect
  rintro ⟨into, out⟩
  cases isOut with
  | true => exact other into
  | false => exact other out

section Scan

variable {index : Nat} {token : List UInt8} {rest : List (List UInt8)} {scan : ArgumentScan}

def ScanAccepts (index : Nat) (tokens : List (List UInt8)) (scan : ArgumentScan) : Prop :=
  ∃ result, scanTokens index tokens scan = .ok (some result)

theorem isBare_iff (token : List UInt8) :
    IsBare token ↔ charInSet greater token = false ∧ charInSet less token = false := by
  simp [IsBare, Bool.eq_false_iff, and_comm]

theorem scanTokensWith_bare (tokenizer : Tokenizer) (bare : IsBare token) :
    scanTokensWith tokenizer index (token :: rest) scan =
      if scan.redirectFound then .ok none
      else scanTokensWith tokenizer (index + 1) rest scan := by
  obtain ⟨out, into⟩ := (isBare_iff token).mp bare
  simp [scanTokensWith, out, into]

theorem scanTokens_bare (bare : IsBare token) :
    scanTokens index (token :: rest) scan =
      if scan.redirectFound then .ok none else scanTokens (index + 1) rest scan :=
  scanTokensWith_bare parseTokens bare

theorem scanTokensWith_marked (tokenizer : Tokenizer) (marked : ¬ IsBare token) :
    scanTokensWith tokenizer index (token :: rest) scan =
      if index = 0 then .ok none
      else (do
        match ← parseRedirectWith tokenizer token (charInSet greater token) with
        | none => .ok none
        | some redirect =>
          scanTokensWith tokenizer (index + 1) rest (scan.addRedirect index redirect)) := by
  rw [isBare_iff] at marked
  have entered : (charInSet greater token ||
      !charInSet greater token && charInSet less token) = true := by
    cases out : charInSet greater token <;> simp_all
  have one : (!charInSet greater token && charInSet less token && charInSet greater token) =
      false := by
    cases charInSet greater token <;> simp
  simp only [scanTokensWith, entered, one, if_true]
  rfl

theorem scanTokens_marked (marked : ¬ IsBare token) :
    scanTokens index (token :: rest) scan =
      if index = 0 then .ok none
      else (do
        match ← parseRedirect token (charInSet greater token) with
        | none => .ok none
        | some redirect => scanTokens (index + 1) rest (scan.addRedirect index redirect)) :=
  scanTokensWith_marked parseTokens marked

theorem scanAccepts_marked (marked : ¬ IsBare token) :
    ScanAccepts index (token :: rest) scan ↔ 0 < index ∧ ∃ redirect,
      parseRedirect token (charInSet greater token) = .ok (some redirect) ∧
      ScanAccepts (index + 1) rest (scan.addRedirect index redirect) := by
  simp only [ScanAccepts, scanTokens_marked marked]
  by_cases first : index = 0
  · simp [first]
  · simp only [first, if_false, Nat.pos_of_ne_zero first, true_and]
    cases parsed : parseRedirect token (charInSet greater token) with
    | error stop => simp [bind, Except.bind]
    | ok result => cases result <;> simp [bind, Except.bind]

theorem isAnyRedirect_iff (clean : 0 ∉ token) :
    IsAnyRedirect token ↔ ¬ IsBare token ∧ ∃ redirect,
      parseRedirect token (charInSet greater token) = .ok (some redirect) := by
  rw [parseRedirect_isSome_iff _ _ clean, IsAnyRedirect]

end Scan

theorem scanAccepts_found (tokens : List (List UInt8)) (index : Nat) (scan : ArgumentScan)
    (clean : ∀ token ∈ tokens, 0 ∉ token) (late : 0 < index) (found : scan.redirectFound = true) :
    ScanAccepts index tokens scan ↔ ∀ token ∈ tokens, IsAnyRedirect token := by
  induction tokens generalizing index scan with
  | nil => simp [ScanAccepts]
  | cons token rest ih =>
    have here := clean token (by simp)
    have later (redirect : Redirect) := ih (index + 1) (scan.addRedirect index redirect)
      (fun other member => clean other (by simp [member])) (by omega) rfl
    by_cases bare : IsBare token
    · have stopped : ¬ ScanAccepts index (token :: rest) scan := by
        simp [ScanAccepts, scanTokens_bare bare, found]
      simp [stopped, IsAnyRedirect, bare]
    · simp only [scanAccepts_marked bare, later, late, true_and, List.forall_mem_cons,
        isAnyRedirect_iff here, bare, not_false_eq_true]
      simp

theorem scanAccepts_fresh (tokens : List (List UInt8)) (index : Nat) (scan : ArgumentScan)
    (clean : ∀ token ∈ tokens, 0 ∉ token) (fresh : scan.redirectFound = false) :
    ScanAccepts index tokens scan ↔
      ∃ words redirects, tokens = words ++ redirects ∧ (redirects ≠ [] → 0 < index + words.length) ∧
        (∀ token ∈ words, IsBare token) ∧ ∀ token ∈ redirects, IsAnyRedirect token := by
  induction tokens generalizing index scan with
  | nil =>
    refine ⟨fun _ => ⟨[], [], by simp⟩, fun _ => ⟨scan, rfl⟩⟩
  | cons token rest ih =>
    have here := clean token (by simp)
    have others : ∀ other ∈ rest, 0 ∉ other := fun other member => clean other (by simp [member])
    by_cases bare : IsBare token
    · have onward : ScanAccepts index (token :: rest) scan ↔ ScanAccepts (index + 1) rest scan := by
        simp [ScanAccepts, scanTokens_bare bare, fresh]
      rw [onward, ih (index + 1) scan others fresh]
      constructor
      · rintro ⟨words, redirects, rfl, late, bares, redirected⟩
        refine ⟨token :: words, redirects, rfl, fun _ => by simp only [List.length_cons]; omega, ?_,
          redirected⟩
        exact List.forall_mem_cons.mpr ⟨bare, bares⟩
      · rintro ⟨words, redirects, same, late, bares, redirected⟩
        cases words with
        | nil =>
          subst same
          exact absurd bare (redirected token (by simp)).1
        | cons word words =>
          obtain ⟨rfl, rfl⟩ : token = word ∧ rest = words ++ redirects := by simpa using same
          exact ⟨words, redirects, rfl, fun _ => by omega, (List.forall_mem_cons.mp bares).2,
            redirected⟩
    · constructor
      · intro accepts
        obtain ⟨late, redirect, parsed, accepts⟩ := (scanAccepts_marked bare).mp accepts
        have redirected := (scanAccepts_found rest (index + 1) _ others (by omega) rfl).mp accepts
        refine ⟨[], token :: rest, rfl, fun _ => by omega, by simp, ?_⟩
        exact List.forall_mem_cons.mpr
          ⟨(isAnyRedirect_iff here).mpr ⟨bare, redirect, parsed⟩, redirected⟩
      · rintro ⟨words, redirects, same, late, bares, redirected⟩
        cases words with
        | cons word words =>
          obtain ⟨rfl, -⟩ : token = word ∧ rest = words ++ redirects := by simpa using same
          exact absurd (bares token (by simp)) bare
        | nil =>
          subst same
          obtain ⟨first, redirected⟩ := List.forall_mem_cons.mp redirected
          obtain ⟨-, redirect, parsed⟩ := (isAnyRedirect_iff here).mp first
          have after : 0 < index := by simpa using late
          exact (scanAccepts_marked bare).mpr ⟨after, redirect, parsed,
            (scanAccepts_found rest (index + 1) _ others (by omega) rfl).mpr redirected⟩

theorem wordsOf_clean (command : List UInt8) (clean : 0 ∉ command) :
    ∀ token ∈ wordsOf command, 0 ∉ token := by
  intro token member nul
  rcases mem_pieces _ _ _ command token 0 member nul with found | found
  · exact clean found
  · exact absurd found (by decide)

theorem scanAccepts_start (tokens : List (List UInt8)) (scan : ArgumentScan)
    (clean : ∀ token ∈ tokens, 0 ∉ token) (fresh : scan.redirectFound = false) :
    0 < tokens.length ∧ ScanAccepts 0 tokens scan ↔ Sequence IsBare IsAnyRedirect tokens := by
  rw [scanAccepts_fresh tokens 0 scan clean fresh]
  constructor
  · rintro ⟨filled, words, redirects, same, late, bares, redirected⟩
    refine ⟨words, redirects, same, ?_, bares, redirected⟩
    rintro rfl
    rw [List.nil_append] at same
    exact absurd (late (same ▸ List.length_pos_iff.mp filled)) (by simp)
  · rintro ⟨words, redirects, same, nonempty, bares, redirected⟩
    have counted : 0 < words.length := List.length_pos_iff.mpr nonempty
    refine ⟨?_, words, redirects, same, fun _ => by omega, bares, redirected⟩
    rw [same, List.length_append]
    omega

theorem parseProcess_accepts_iff (command : List UInt8) (clean : 0 ∉ command)
    (some : 1 ≤ (wordsOf command).length) (few : (wordsOf command).length < maxArgs) :
    (∃ process, parseProcess command = .ok (.process process)) ↔
      Sequence IsBare IsAnyRedirect (wordsOf command) := by
  have filled : wordsOf command ≠ [] := List.length_pos_iff.mp some
  have accepted : (∃ process, parseProcess command = .ok (.process process)) ↔
      ScanAccepts 0 (wordsOf command)
        { process := { emptyProcess with arguments := (wordsOf command).map .some ++ [none] }
          redirectFound := false } := by
    rw [parseProcess_eq command clean, if_pos ⟨few, filled⟩, ScanAccepts]
    dsimp only
    generalize scanTokens 0 (wordsOf command) _ = scanned
    cases scanned with
    | error stop => simp [bind, Except.bind]
    | ok result =>
      cases result with
      | none => simp [bind, Except.bind]
      | some scan => cases found : scan.redirectFound <;> simp [bind, Except.bind, found]
  have started := scanAccepts_start (wordsOf command)
    { process := { emptyProcess with arguments := (wordsOf command).map .some ++ [none] }
      redirectFound := false } (wordsOf_clean command clean) rfl
  rwa [and_iff_right (List.length_pos_iff.mpr filled), ← accepted] at started

def ParsesGrammar (command : List UInt8) : Prop :=
  (∃ process, parseProcess command = .ok (.process process)) ↔ Grammar (wordsOf command)

def EscapedInWord (tokens : List (List UInt8)) : Prop :=
  Grammar tokens ∧ ∃ token ∈ tokens, IsWord token ∧ (less ∈ token ∨ greater ∈ token)

def MixedRedirect (tokens : List (List UInt8)) : Prop :=
  Sequence IsBare IsAnyRedirect tokens ∧ ∃ token ∈ tokens, less ∈ token ∧ greater ∈ token

theorem Sequence.mem {word redirect : List UInt8 → Prop} {tokens : List (List UInt8)}
    (sequence : Sequence word redirect tokens) {token : List UInt8} (member : token ∈ tokens) :
    word token ∨ redirect token := by
  obtain ⟨words, redirects, rfl, -, each, last⟩ := sequence
  exact (List.mem_append.mp member).imp (each token) (last token)

theorem Sequence.imp {word redirect word' redirect' : List UInt8 → Prop}
    {tokens : List (List UInt8)} (sequence : Sequence word redirect tokens)
    (words : ∀ token ∈ tokens, word token → word' token)
    (redirects : ∀ token ∈ tokens, redirect token → redirect' token) :
    Sequence word' redirect' tokens := by
  obtain ⟨first, last, rfl, filled, each, rest⟩ := sequence
  refine ⟨first, last, rfl, filled, ?_, ?_⟩
  · exact fun token member => words token (by simp [member]) (each token member)
  · exact fun token member => redirects token (by simp [member]) (rest token member)

/-- The parser and the grammar part where a word has an escaped redirect character, which the
parser does not see as escaped, and where '<' stands in a redirect with '>', which it never
looks for. -/
theorem parsesGrammar_iff (command : List UInt8) (clean : 0 ∉ command)
    (some : 1 ≤ (wordsOf command).length) (few : (wordsOf command).length < maxArgs) :
    ParsesGrammar command ↔
      ¬ EscapedInWord (wordsOf command) ∧ ¬ MixedRedirect (wordsOf command) := by
  rw [ParsesGrammar, parseProcess_accepts_iff command clean some few]
  generalize wordsOf command = tokens
  constructor
  · intro same
    constructor
    · rintro ⟨grammar, token, member, word, marked⟩
      rcases (same.mpr grammar).mem member with bare | redirect
      · exact marked.elim bare.1 bare.2
      · exact redirect.not_isWord word
    · rintro ⟨taken, token, member, into, out⟩
      rcases (same.mp taken).mem member with word | redirect
      · rcases taken.mem member with bare | redirect
        · exact bare.1 into
        · exact redirect.not_isWord word
      · exact redirect.one ⟨into, out⟩
  · rintro ⟨escaped, mixed⟩
    constructor
    · intro taken
      refine taken.imp (fun _ _ bare => bare.isWord) fun token member redirect => ?_
      exact redirect.isRedirect fun both => mixed ⟨taken, token, member, both⟩
    · intro grammar
      refine grammar.imp (fun token member word => ?_) fun _ _ redirect => redirect.isAnyRedirect
      by_contra marked
      refine escaped ⟨grammar, token, member, word, ?_⟩
      by_contra neither
      exact marked (not_or.mp neither)

theorem parsesGrammar_iff_errorToOut : ParsesGrammar [97, 32, 50, 62, 38, 49] := by
  have tokens : wordsOf [97, 32, 50, 62, 38, 49] = [[97], [50, 62, 38, 49]] := by decide
  have escaped : ¬ EscapedInWord [[97], [50, 62, 38, 49]] := by
    rintro ⟨-, token, member, word, marked⟩
    have each : ∀ token ∈ [[97], [50, 62, 38, 49]],
        IsWord token → ¬ (less ∈ token ∨ greater ∈ token) := by decide
    exact each token member word marked
  have mixed : ¬ MixedRedirect [[97], [50, 62, 38, 49]] := by
    rintro ⟨-, token, member, both⟩
    have each : ∀ token ∈ [[97], [50, 62, 38, 49]], ¬ (less ∈ token ∧ greater ∈ token) := by decide
    exact each token member both
  refine (parsesGrammar_iff _ (by decide) (by decide) (by decide)).mpr ?_
  rw [tokens]
  exact ⟨escaped, mixed⟩

/-- `a 1>b<c` is taken, and `a b\>c` is not. -/
theorem parsesGrammar_fails :
    ¬ ParsesGrammar [97, 32, 49, 62, 98, 60, 99] ∧ ¬ ParsesGrammar [97, 32, 98, 92, 62, 99] := by
  constructor
  · intro parses
    have tokens : wordsOf [97, 32, 49, 62, 98, 60, 99] = [[97], [49, 62, 98, 60, 99]] := by decide
    have grammar := tokens ▸ parses.mp ⟨_, rfl⟩
    have second : ([49, 62, 98, 60, 99] : List UInt8) ∈ [[97], [49, 62, 98, 60, 99]] := by simp
    rcases grammar.mem second with word | redirect
    · exact absurd word (by decide)
    · exact redirect.one (by decide)
  · intro parses
    have tokens : wordsOf [97, 32, 98, 92, 62, 99] = [[97], [98, 92, 62, 99]] := by decide
    have words : ∀ token ∈ [[97], [98, 92, 62, 99]], IsWord token := by decide
    have grammar : Grammar [[97], [98, 92, 62, 99]] :=
      ⟨[[97], [98, 92, 62, 99]], [], by simp, by simp, words, by simp⟩
    obtain ⟨process, returned⟩ := parses.mpr (tokens.symm ▸ grammar)
    have refused : parseProcess [97, 32, 98, 92, 62, 99] = .ok .error := by decide
    simp [refused] at returned

end Akiso.Shell
