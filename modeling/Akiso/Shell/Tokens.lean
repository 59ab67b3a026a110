import Akiso.Shared.Escape
import Akiso.Shell.Utility

set_option autoImplicit false

namespace Akiso.Shell

open CString Escape

def maxArgs : Nat := 20

/-- `rejected` is the NULL result with *argc = 0; `overrun` is a store past the argument slots. -/
inductive Stop where
  | rejected
  | overrun
  deriving DecidableEq, Repr

structure TokenState where
  arguments : List Nat
  buffer : List UInt8
  escaped : Bool
  addArg : Bool
  deriving DecidableEq, Repr

def TokenState.start : TokenState :=
  { arguments := [], buffer := [], escaped := false, addArg := true }

def TokenState.write (state : TokenState) (bytes : List UInt8) : TokenState :=
  { state with buffer := state.buffer ++ bytes }

-- `slots` pointers may be stored; an argument is the offset of the buffer pointer.
def storeArgument (slots : Nat) (state : TokenState) : Except Stop TokenState :=
  if state.arguments.length < slots then
    .ok { state with arguments := state.arguments ++ [state.buffer.length] }
  else .error .overrun

def delimitArgument (slots : Nat) (allowEmpty : Bool) (state : TokenState) :
    Except Stop TokenState :=
  if allowEmpty && state.addArg then do
    let state ← storeArgument slots state
    return { state.write [0] with addArg := true }
  else if !state.addArg then return { state.write [0] with addArg := true }
  else return { state with addArg := true }

def beginArgument (slots : Nat) (state : TokenState) : Except Stop TokenState :=
  if state.addArg then do
    let state ← storeArgument slots state
    if maxArgs ≤ state.arguments.length then .error .rejected
    else return { state with addArg := false }
  else return state

def writeSymbol (state : TokenState) (c : UInt8) : TokenState :=
  if c = backslash then
    if state.escaped then { state.write [backslash] with escaped := false }
    else { state with escaped := true }
  else if state.escaped then { state.write [backslash, c] with escaped := false }
  else state.write [c]

def tokenStep (slots : Nat) (delimeters : List UInt8) (allowEmpty : Bool) (state : TokenState)
    (c : UInt8) : Except Stop TokenState :=
  if charInSet c delimeters && !state.escaped then delimitArgument slots allowEmpty state
  else do
    -- An escaped delimiter loses its backslash: the flag is cleared before the symbol is written.
    let state := if charInSet c delimeters then { state with escaped := false } else state
    let state ← beginArgument slots state
    return writeSymbol state c

def finishTokens (slots : Nat) (allowEmpty : Bool) (state : TokenState) :
    Except Stop TokenState :=
  if state.escaped then return state.write [backslash, 0]
  else if state.addArg && allowEmpty then do
    let state ← storeArgument slots state
    if maxArgs ≤ state.arguments.length then .error .rejected else return state.write [0]
  else return state.write [0]

def tokensFrom (slots : Nat) (delimeters : List UInt8) (allowEmpty : Bool) (state : TokenState)
    (command : List UInt8) : Except Stop (List (List UInt8)) := do
  let state ← command.foldlM (tokenStep slots delimeters allowEmpty) state
  let state ← finishTokens slots allowEmpty state
  if state.arguments.length ≤ maxArgs then
    return state.arguments.map (stringAt state.buffer)
  else .error .overrun

def parseTokens (command delimeters : List UInt8) (allowEmpty : Bool) :
    Except Stop (List (List UInt8)) :=
  tokensFrom (maxArgs + 1) delimeters allowEmpty TokenState.start command

-- The slots are followed by the len + 1 characters in one allocation, and a pointer has 8 bytes.
def blockSlots (command : List UInt8) : Nat := (8 * (maxArgs + 1) + (command.length + 1)) / 8

-- parse_tokens with all of its allocation: a pointer stored behind the slots covers characters of
-- earlier tokens, which nothing reads before the call ends with NULL.
def parseTokensBlock (command delimeters : List UInt8) (allowEmpty : Bool) :
    Except Stop (List (List UInt8)) :=
  tokensFrom (blockSlots command) delimeters allowEmpty TokenState.start command

-- The argument slots are overrun, which takes two empty tokens where the limit is not checked.
def Overruns (tokens : List (List UInt8)) : Prop :=
  maxArgs + 2 ≤ tokens.length ∧ tokens[maxArgs - 1]? = some [] ∧ tokens[maxArgs]? = some []

instance : DecidablePred Overruns := fun _ => inferInstanceAs (Decidable (_ ∧ _ ∧ _))

def verdict (tokens : List (List UInt8)) : Except Stop (List (List UInt8)) :=
  if tokens.length < maxArgs then .ok tokens
  else if Overruns tokens then .error .overrun
  else .error .rejected

def OverrunsPast (slots : Nat) (tokens : List (List UInt8)) : Prop :=
  slots < tokens.length ∧ ∀ index < slots, maxArgs - 1 ≤ index → tokens[index]? = some []

instance (slots : Nat) : DecidablePred (OverrunsPast slots) :=
  fun _ => inferInstanceAs (Decidable (_ ∧ _))

def verdictPast (slots : Nat) (tokens : List (List UInt8)) : Except Stop (List (List UInt8)) :=
  if tokens.length < maxArgs then .ok tokens
  else if OverrunsPast slots tokens then .error .overrun
  else .error .rejected

theorem overrunsPast_slots (tokens : List (List UInt8)) :
    OverrunsPast (maxArgs + 1) tokens ↔ Overruns tokens := by
  unfold OverrunsPast Overruns
  constructor
  · rintro ⟨long, late⟩
    exact ⟨long, late _ (by decide) (by decide), late _ (by decide) (by decide)⟩
  · rintro ⟨long, first, second⟩
    refine ⟨long, fun index high low => ?_⟩
    have which : index = maxArgs - 1 ∨ index = maxArgs := by omega
    rcases which with rfl | rfl
    · exact first
    · exact second

theorem verdictPast_slots (tokens : List (List UInt8)) :
    verdictPast (maxArgs + 1) tokens = verdict tokens := by
  simp only [verdictPast, verdict, overrunsPast_slots]

def layout (closed : List (List UInt8)) (current : Option (List UInt8)) (escaped : Bool) :
    TokenState :=
  { arguments := offsetsFrom 0 closed ++ if current.isSome then [(terminated closed).length] else []
    buffer := terminated closed ++ current.getD []
    escaped
    addArg := current.isNone }

/-- Only the branch for empty tokens can fill the last slots, and only with empty tokens. -/
structure Fits (slots : Nat) (allowEmpty : Bool) (closed : List (List UInt8))
    (current : Option (List UInt8)) : Prop where
  bound : closed.length ≤ slots
  late : ∀ index, maxArgs - 1 ≤ index → index < closed.length → closed[index]? = some []
  room : current.isSome → closed.length + 1 < maxArgs
  strict : allowEmpty = false → closed.length < maxArgs
  clean : ∀ token ∈ closed, 0 ∉ token
  cleanCurrent : 0 ∉ current.getD []

variable {slots : Nat}

theorem tokensFrom_cons (delimeters : List UInt8) (allowEmpty : Bool) (state : TokenState)
    (c : UInt8) (rest : List UInt8) :
    tokensFrom slots delimeters allowEmpty state (c :: rest) =
      tokenStep slots delimeters allowEmpty state c >>=
        fun next => tokensFrom slots delimeters allowEmpty next rest := by
  simp [tokensFrom]

theorem verdict_of_lt (tokens : List (List UInt8)) (few : tokens.length < maxArgs) :
    verdict tokens = .ok tokens := by
  simp [verdict, few]

theorem verdictPast_of_lt (slots : Nat) (tokens : List (List UInt8))
    (few : tokens.length < maxArgs) : verdictPast slots tokens = .ok tokens := by
  simp [verdictPast, few]

theorem verdictPast_rejected (closed : List (List UInt8)) (token : List UInt8)
    (rest : List (List UInt8)) (filled : token ≠ [] ∨ rest = [])
    (low : maxArgs ≤ closed.length + 1) (high : closed.length < slots) :
    verdictPast slots (closed ++ token :: rest) = .error .rejected := by
  have long : ¬ (closed ++ token :: rest).length < maxArgs := by simp; omega
  have slot : (closed ++ token :: rest)[closed.length]? = some token := by simp
  rw [verdictPast, if_neg long, if_neg]
  rintro ⟨many, late⟩
  have blank := late closed.length high (by omega)
  rw [slot, Option.some.injEq] at blank
  rcases filled with filled | rfl
  · exact filled blank
  · simp at many
    omega

theorem verdictPast_overrun (closed : List (List UInt8)) (token : List UInt8)
    (rest : List (List UInt8)) (ample : maxArgs < slots) (full : closed.length = slots)
    (late : ∀ index, maxArgs - 1 ≤ index → index < closed.length → closed[index]? = some []) :
    verdictPast slots (closed ++ token :: rest) = .error .overrun := by
  have long : ¬ (closed ++ token :: rest).length < maxArgs := by simp; omega
  rw [verdictPast, if_neg long, if_pos]
  refine ⟨by simp; omega, fun index low high => ?_⟩
  rw [List.getElem?_append_left (by omega)]
  exact late index high (by omega)

theorem beginArgument_open (closed : List (List UInt8)) (current : List UInt8) (escaped : Bool) :
    beginArgument slots (layout closed (some current) escaped) =
      .ok (layout closed (some current) escaped) := rfl

theorem beginArgument_none (closed : List (List UInt8)) :
    beginArgument slots (layout closed none false) =
      if slots ≤ closed.length then .error .overrun
      else if maxArgs ≤ closed.length + 1 then .error .rejected
      else .ok (layout closed (some []) false) := by
  simp only [beginArgument, layout, storeArgument, Option.isNone_none, Option.isSome_none,
    Bool.false_eq_true, if_false, if_true, List.append_nil, length_offsetsFrom]
  by_cases beyond : slots ≤ closed.length
  · simp [beyond, Nat.not_lt.mpr beyond, bind, Except.bind]
  · by_cases full : maxArgs ≤ closed.length + 1 <;>
      simp [beyond, full, Nat.not_le.mp beyond, bind, Except.bind, pure, Except.pure]

theorem delimitArgument_open (allowEmpty : Bool) (closed : List (List UInt8))
    (current : List UInt8) :
    delimitArgument slots allowEmpty (layout closed (some current) false) =
      .ok (layout (closed ++ [current]) none false) := by
  simp [delimitArgument, layout, TokenState.write, offsetsFrom_append, pure, Except.pure]

theorem delimitArgument_none (allowEmpty : Bool) (closed : List (List UInt8)) :
    delimitArgument slots allowEmpty (layout closed none false) =
      if allowEmpty then
        if slots ≤ closed.length then .error .overrun
        else .ok (layout (closed ++ [[]]) none false)
      else .ok (layout closed none false) := by
  cases allowEmpty
  next => simp [delimitArgument, layout, pure, Except.pure]
  next =>
    by_cases beyond : slots ≤ closed.length
    · simp [delimitArgument, layout, storeArgument, beyond, Nat.not_lt.mpr beyond, bind,
        Except.bind]
    · simp [delimitArgument, layout, storeArgument, beyond, Nat.not_le.mp beyond, TokenState.write,
        offsetsFrom_append, bind, Except.bind, pure, Except.pure]

theorem writeSymbol_open (closed : List (List UInt8)) (current : List UInt8) (c : UInt8) :
    writeSymbol (layout closed (some current) false) c =
      if c = backslash then layout closed (some current) true
      else layout closed (some (current ++ [c])) false := by
  by_cases escape : c = backslash <;>
    simp [writeSymbol, layout, TokenState.write, escape, List.append_assoc]

theorem writeSymbol_escaped (closed : List (List UInt8)) (current : List UInt8) (c : UInt8) :
    writeSymbol (layout closed (some current) true) c =
      layout closed (some (current ++ if c = backslash then [c] else [backslash, c])) false := by
  by_cases escape : c = backslash <;>
    simp [writeSymbol, layout, TokenState.write, escape, List.append_assoc]

theorem Fits.start (allowEmpty : Bool) : Fits slots allowEmpty [] none :=
  { bound := by simp
    late := by simp
    room := by simp
    strict := by simp [maxArgs]
    clean := by simp
    cleanCurrent := by simp }

theorem Fits.close {allowEmpty : Bool} {closed : List (List UInt8)} {current : List UInt8}
    (fits : Fits slots allowEmpty closed (some current)) (ample : maxArgs < slots) :
    Fits slots allowEmpty (closed ++ [current]) none := by
  have room := fits.room rfl
  refine ⟨by simp; omega, ?_, by simp, fun _ => by simpa using room, ?_, by simp⟩
  · intro index low high
    simp at high
    omega
  · intro token member
    rcases List.mem_append.mp member with member | member
    · exact fits.clean token member
    · simpa [List.mem_singleton.mp member] using fits.cleanCurrent

theorem Fits.blank {closed : List (List UInt8)} (fits : Fits slots true closed none)
    (room : closed.length < slots) : Fits slots true (closed ++ [[]]) none := by
  refine ⟨by simpa using Nat.succ_le_of_lt room, ?_, by simp, by simp, ?_, by simp⟩
  · intro index low high
    rcases Nat.lt_or_ge index closed.length with before | after
    · rw [List.getElem?_append_left before]
      exact fits.late index low before
    · have last : index = closed.length := by simp at high; omega
      simp [last]
  · intro token member
    rcases List.mem_append.mp member with member | member
    · exact fits.clean token member
    · simp [List.mem_singleton.mp member]

theorem Fits.begin {allowEmpty : Bool} {closed : List (List UInt8)}
    (fits : Fits slots allowEmpty closed none) (room : closed.length + 1 < maxArgs) :
    Fits slots allowEmpty closed (some []) :=
  { fits with room := fun _ => room, cleanCurrent := by simp }

theorem Fits.extend {allowEmpty : Bool} {closed : List (List UInt8)} {current : List UInt8}
    (fits : Fits slots allowEmpty closed (some current)) (bytes : List UInt8) (clean : 0 ∉ bytes) :
    Fits slots allowEmpty closed (some (current ++ bytes)) := by
  have prior : 0 ∉ current := by simpa using fits.cleanCurrent
  exact { fits with room := fun _ => fits.room rfl, cleanCurrent := by simp [prior, clean] }

theorem readback (tokens : List (List UInt8)) (spare : List UInt8)
    (clean : ∀ token ∈ tokens, 0 ∉ token) :
    (offsetsFrom 0 tokens).map (stringAt (terminated tokens ++ spare)) = tokens := by
  simpa using map_stringAt_offsetsFrom [] tokens spare clean

theorem finish_open (allowEmpty : Bool) (closed : List (List UInt8)) (current : List UInt8)
    (escaped : Bool) (fits : Fits slots allowEmpty closed (some current))
    (delimeters : List UInt8) :
    tokensFrom slots delimeters allowEmpty (layout closed (some current) escaped) [] =
      .ok (closed ++ [current ++ if escaped then [backslash] else []]) := by
  have room := fits.room rfl
  have last : 0 ∉ current ++ if escaped then [backslash] else [] := by
    have prior : 0 ∉ current := by simpa using fits.cleanCurrent
    cases escaped <;> simp [prior, backslash]
  have clean : ∀ token ∈ closed ++ [current ++ if escaped then [backslash] else []],
      0 ∉ token := by
    intro token member
    rcases List.mem_append.mp member with member | member
    · exact fits.clean token member
    · rwa [List.mem_singleton.mp member]
  have read := readback _ [] clean
  have count : closed.length + 1 ≤ maxArgs := by omega
  cases escaped <;>
    simpa [tokensFrom, finishTokens, layout, TokenState.write, pure, Except.pure, bind,
      Except.bind, count, offsetsFrom_append] using read

theorem finish_none (allowEmpty : Bool) (closed : List (List UInt8))
    (ample : maxArgs < slots) (fits : Fits slots allowEmpty closed none) (delimeters : List UInt8) :
    tokensFrom slots delimeters allowEmpty (layout closed none false) [] =
      verdictPast slots (closed ++ if allowEmpty then [[]] else []) := by
  cases allowEmpty
  next =>
    have few := fits.strict rfl
    have read := readback closed [0] fits.clean
    simpa [tokensFrom, finishTokens, layout, TokenState.write, pure, Except.pure, bind,
      Except.bind, verdictPast_of_lt slots closed few, Nat.le_of_lt few] using read
  next =>
    by_cases beyond : slots ≤ closed.length
    · have full : closed.length = slots := Nat.le_antisymm fits.bound beyond
      simp [tokensFrom, finishTokens, layout, storeArgument, Nat.not_lt.mpr beyond, bind,
        Except.bind, pure, Except.pure, verdictPast_overrun closed [] [] ample full fits.late]
    · by_cases full : maxArgs ≤ closed.length + 1
      · simp [tokensFrom, finishTokens, layout, storeArgument, Nat.not_le.mp beyond, full, bind,
          Except.bind, pure, Except.pure,
          verdictPast_rejected closed [] [] (.inr rfl) full (Nat.not_le.mp beyond)]
      · have clean : ∀ token ∈ closed ++ [[]], 0 ∉ token := (fits.blank (by omega)).clean
        have read := readback (closed ++ [[]]) [] clean
        have few : (closed ++ [[]]).length < maxArgs := by simp; omega
        have count : closed.length + 1 ≤ maxArgs := by omega
        simpa [tokensFrom, finishTokens, layout, storeArgument, Nat.not_le.mp beyond, full, bind,
          Except.bind, pure, Except.pure, TokenState.write, count, verdictPast_of_lt slots _ few,
          offsetsFrom_append] using read

section Run

variable (delimeters : List UInt8) (allowEmpty : Bool)

-- As the tokenizer reads a text: a backslash that is a delimiter itself never escapes.
def unitsFrom : Bool → List UInt8 → List (Item UInt8)
  | false, [] => []
  | true, [] => [.lone]
  | false, c :: rest =>
    if c = backslash ∧ charInSet c delimeters = false then unitsFrom true rest
    else .plain c :: unitsFrom false rest
  | true, c :: rest => .pair c :: unitsFrom false rest

theorem unitsFrom_plain (plain : backslash ∉ delimeters) (escaped : Bool) (text : List UInt8) :
    unitsFrom delimeters escaped text = itemsFrom backslash escaped text := by
  have kept : charInSet backslash delimeters = false :=
    Bool.eq_false_iff.mpr (by simpa using plain)
  induction text generalizing escaped with
  | nil => cases escaped <;> rfl
  | cons c rest ih =>
    cases escaped
    next =>
      by_cases same : c = backslash
      · simp [unitsFrom, itemsFrom, same, kept, ih]
      · simp [unitsFrom, itemsFrom, same, ih]
    next => simp [unitsFrom, itemsFrom, ih]

theorem unitsFrom_start (c : UInt8) (rest : List UInt8) (kept : charInSet c delimeters = false) :
    ∃ unit units, unitsFrom delimeters false (c :: rest) = unit :: units ∧
      unit.cuts (charInSet · delimeters) = false := by
  by_cases same : c = backslash
  next =>
    subst same
    cases rest <;> simp [unitsFrom, kept, Item.cuts]
  next => simp [unitsFrom, same, Item.cuts, kept]

def expected (closed : List (List UInt8)) (current : Option (List UInt8)) (escaped : Bool)
    (rest : List UInt8) : List (List UInt8) :=
  closed ++ gather backslash (charInSet · delimeters) allowEmpty current
    (unitsFrom delimeters escaped rest)

theorem tokenStep_plain (slots : Nat) (state : TokenState) (c : UInt8)
    (kept : charInSet c delimeters = false) :
    tokenStep slots delimeters allowEmpty state c =
      beginArgument slots state >>= fun next => .ok (writeSymbol next c) := by
  simp [tokenStep, kept, pure, Except.pure]

theorem write_step (closed : List (List UInt8)) (current : List UInt8) (escaped : Bool) (c : UInt8)
    (rest : List UInt8) (fits : Fits slots allowEmpty closed (some current)) (clean : c ≠ 0)
    (writes : charInSet c delimeters = true → escaped = true)
    (pending : escaped = true → backslash ∉ delimeters) :
    ∃ next flag, Fits slots allowEmpty closed (some next) ∧ (flag = true → backslash ∉ delimeters) ∧
      tokenStep slots delimeters allowEmpty (layout closed (some current) escaped) c =
        .ok (layout closed (some next) flag) ∧
      expected delimeters allowEmpty closed (some current) escaped (c :: rest) =
        expected delimeters allowEmpty closed (some next) flag rest := by
  have nonzero : (0 : UInt8) ≠ c := Ne.symm clean
  cases escaped
  next =>
    have kept : charInSet c delimeters = false := Bool.eq_false_iff.mpr fun cut => by
      simpa using writes cut
    have step :=
      tokenStep_plain delimeters allowEmpty slots (layout closed (some current) false) c kept
    rw [beginArgument_open] at step
    by_cases escape : c = backslash
    · refine ⟨current, true, fits, fun _ => ?_, ?_, ?_⟩
      · rw [escape] at kept
        simpa using Bool.eq_false_iff.mp kept
      · rw [step]
        simp [bind, Except.bind, writeSymbol_open, escape]
      · rw [escape] at kept
        simp [expected, unitsFrom, escape, kept]
    · refine ⟨current ++ [c], false, fits.extend [c] (by simpa using nonzero), by simp, ?_, ?_⟩
      · simp [step, bind, Except.bind, writeSymbol_open, escape]
      · simp [expected, unitsFrom, escape, gather, Item.cuts, Item.decode, kept]
  next =>
    by_cases cut : charInSet c delimeters = true
    · have other : c ≠ backslash := by
        rintro rfl
        exact pending rfl ((charInSet_eq_true _ _).mp cut)
      refine ⟨current ++ [c], false, fits.extend [c] (by simpa using nonzero), by simp, ?_, ?_⟩
      · have lowered : { layout closed (some current) true with escaped := false } =
            layout closed (some current) false := rfl
        have stays : (layout closed (some current) true).escaped = true := rfl
        simp [tokenStep, cut, stays, lowered, beginArgument_open, bind, Except.bind, pure,
          Except.pure, writeSymbol_open, other]
      · simp [expected, unitsFrom, gather, Item.cuts, Item.decode, cut]
    · have kept : charInSet c delimeters = false := Bool.eq_false_iff.mpr cut
      have step :=
        tokenStep_plain delimeters allowEmpty slots (layout closed (some current) true) c kept
      rw [beginArgument_open] at step
      refine ⟨current ++ if c = backslash then [c] else [backslash, c], false,
        fits.extend _ ?_, by simp, ?_, ?_⟩
      · split <;> simp [nonzero, backslash]
      · simp [step, bind, Except.bind, writeSymbol_escaped]
      · simp [expected, unitsFrom, gather, Item.cuts, Item.decode, kept]

theorem tokensFrom_open (rest : List UInt8)
    (ih : ∀ closed current escaped, Fits slots allowEmpty closed current →
      (escaped = true → current.isSome ∧ backslash ∉ delimeters) →
      tokensFrom slots delimeters allowEmpty (layout closed current escaped) rest =
        verdictPast slots (expected delimeters allowEmpty closed current escaped rest))
    (closed : List (List UInt8)) (current : List UInt8) (escaped : Bool) (c : UInt8)
    (fits : Fits slots allowEmpty closed (some current)) (clean : c ≠ 0)
    (writes : charInSet c delimeters = true → escaped = true)
    (pending : escaped = true → backslash ∉ delimeters) :
    tokensFrom slots delimeters allowEmpty (layout closed (some current) escaped) (c :: rest) =
      verdictPast slots
        (expected delimeters allowEmpty closed (some current) escaped (c :: rest)) := by
  obtain ⟨next, flag, nextFits, raised, step, pieces⟩ :=
    write_step delimeters allowEmpty closed current escaped c rest fits clean writes pending
  rw [tokensFrom_cons, step, pieces]
  exact ih closed (some next) flag nextFits fun set => ⟨rfl, raised set⟩

theorem delimit_step (ample : maxArgs < slots) (rest : List UInt8)
    (ih : ∀ closed current escaped, Fits slots allowEmpty closed current →
      (escaped = true → current.isSome ∧ backslash ∉ delimeters) →
      tokensFrom slots delimeters allowEmpty (layout closed current escaped) rest =
        verdictPast slots (expected delimeters allowEmpty closed current escaped rest))
    (closed : List (List UInt8)) (c : UInt8) (fits : Fits slots allowEmpty closed none)
    (cut : charInSet c delimeters = true) :
    tokensFrom slots delimeters allowEmpty (layout closed none false) (c :: rest) =
      verdictPast slots (expected delimeters allowEmpty closed none false (c :: rest)) := by
  have stays : (layout closed none false).escaped = false := rfl
  rw [tokensFrom_cons, tokenStep, cut, stays, delimitArgument_none]
  cases allowEmpty
  next =>
    refine (ih closed none false fits (by simp)).trans ?_
    simp [expected, unitsFrom, gather, Item.cuts, cut]
  next =>
    have pieces : expected delimeters true closed none false (c :: rest) =
        closed ++ [] :: gather backslash (charInSet · delimeters) true none
          (unitsFrom delimeters false rest) := by
      simp [expected, unitsFrom, gather, Item.cuts, cut]
    by_cases beyond : slots ≤ closed.length
    · have full : closed.length = slots := Nat.le_antisymm fits.bound beyond
      rw [pieces, verdictPast_overrun closed _ _ ample full fits.late]
      simp [beyond, bind, Except.bind]
    · have next := ih _ none false (fits.blank (Nat.not_le.mp beyond)) (by simp)
      simp only [beyond, if_false, if_true, Bool.not_false, Bool.and_true]
      refine next.trans ?_
      rw [pieces]
      simp [expected]

theorem begin_step (ample : maxArgs < slots) (rest : List UInt8)
    (ih : ∀ closed current escaped, Fits slots allowEmpty closed current →
      (escaped = true → current.isSome ∧ backslash ∉ delimeters) →
      tokensFrom slots delimeters allowEmpty (layout closed current escaped) rest =
        verdictPast slots (expected delimeters allowEmpty closed current escaped rest))
    (closed : List (List UInt8)) (c : UInt8) (fits : Fits slots allowEmpty closed none)
    (clean : c ≠ 0)
    (kept : charInSet c delimeters = false) :
    tokensFrom slots delimeters allowEmpty (layout closed none false) (c :: rest) =
      verdictPast slots (expected delimeters allowEmpty closed none false (c :: rest)) := by
  obtain ⟨unit, units, started, stays⟩ :=
    unitsFrom_start delimeters c rest kept
  obtain ⟨same, piece, tail, filled, first⟩ :=
    gather_start backslash (charInSet · delimeters) allowEmpty unit units stays
  have pieces : expected delimeters allowEmpty closed none false (c :: rest) =
      closed ++ piece :: tail := by rw [expected, started, first]
  have step := tokenStep_plain delimeters allowEmpty slots (layout closed none false) c kept
  rw [beginArgument_none] at step
  by_cases beyond : slots ≤ closed.length
  · have full : closed.length = slots := Nat.le_antisymm fits.bound beyond
    rw [tokensFrom_cons, step, pieces, verdictPast_overrun closed _ _ ample full fits.late]
    simp [beyond, bind, Except.bind]
  · by_cases high : maxArgs ≤ closed.length + 1
    · rw [tokensFrom_cons, step, pieces,
        verdictPast_rejected closed piece tail (.inl filled) high (Nat.not_le.mp beyond)]
      simp [beyond, high, bind, Except.bind]
    · have opened : tokensFrom slots delimeters allowEmpty (layout closed none false) (c :: rest) =
          tokensFrom slots delimeters allowEmpty (layout closed (some []) false) (c :: rest) := by
        rw [tokensFrom_cons, tokensFrom_cons, step,
          tokenStep_plain delimeters allowEmpty slots (layout closed (some []) false) c kept,
          beginArgument_open]
        simp [beyond, high]
      rw [opened, tokensFrom_open delimeters allowEmpty rest ih closed [] false c
        (fits.begin (Nat.not_le.mp high)) clean (by simp [kept]) nofun]
      simp only [expected, started, same]

theorem tokensFrom_layout (ample : maxArgs < slots) (rest : List UInt8) (clean : 0 ∉ rest)
    (closed : List (List UInt8)) (current : Option (List UInt8)) (escaped : Bool)
    (fits : Fits slots allowEmpty closed current)
    (pending : escaped = true → current.isSome ∧ backslash ∉ delimeters) :
    tokensFrom slots delimeters allowEmpty (layout closed current escaped) rest =
      verdictPast slots (expected delimeters allowEmpty closed current escaped rest) := by
  induction rest generalizing closed current escaped with
  | nil =>
    cases current with
    | some current =>
      have few : (closed ++ [current ++ if escaped then [backslash] else []]).length < maxArgs := by
        simpa using fits.room rfl
      rw [finish_open allowEmpty closed current escaped fits, ← verdictPast_of_lt slots _ few]
      cases escaped <;> simp [expected, unitsFrom, gather, Item.cuts, Item.decode]
    | none =>
      have lowered : escaped = false := Bool.eq_false_iff.mpr fun set => by
        simpa using (pending set).1
      subst lowered
      rw [finish_none allowEmpty closed ample fits]
      cases allowEmpty <;> simp [expected, unitsFrom, gather]
  | cons c rest ih =>
    have nonzero : c ≠ 0 := by rintro rfl; simp at clean
    have ih := ih (by simp_all)
    cases current with
    | some current =>
      by_cases cuts : charInSet c delimeters = true ∧ escaped = false
      · obtain ⟨cut, rfl⟩ := cuts
        have stays : (layout closed (some current) false).escaped = false := rfl
        rw [tokensFrom_cons, tokenStep, cut, stays, delimitArgument_open]
        refine (ih _ none false (fits.close ample) (by simp)).trans ?_
        simp [expected, unitsFrom, gather, Item.cuts, cut]
      · exact tokensFrom_open delimeters allowEmpty rest ih closed current escaped c fits
          nonzero (by simpa using cuts) fun set => (pending set).2
    | none =>
      have lowered : escaped = false := Bool.eq_false_iff.mpr fun set => by
        simpa using (pending set).1
      subst lowered
      by_cases cut : charInSet c delimeters = true
      · exact delimit_step delimeters allowEmpty ample rest ih closed c fits cut
      · exact begin_step delimeters allowEmpty ample rest ih closed c fits nonzero
          (Bool.eq_false_iff.mpr cut)

end Run

theorem parseTokens_past (command delimeters : List UInt8) (allowEmpty : Bool)
    (clean : 0 ∉ command) (ample : maxArgs < slots) :
    tokensFrom slots delimeters allowEmpty TokenState.start command =
      verdictPast slots (split backslash (charInSet · delimeters) allowEmpty
        (unitsFrom delimeters false command)) := by
  have run := tokensFrom_layout delimeters allowEmpty ample command clean [] none false
    (Fits.start allowEmpty) (by simp)
  refine run.trans ?_
  simp [expected, gather_none]

theorem parseTokens_eq (command delimeters : List UInt8) (allowEmpty : Bool) (clean : 0 ∉ command)
    (plain : backslash ∉ delimeters) :
    parseTokens command delimeters allowEmpty =
      verdict (pieces backslash (charInSet · delimeters) allowEmpty command) := by
  rw [parseTokens, parseTokens_past command delimeters allowEmpty clean (Nat.lt_succ_self _),
    verdictPast_slots, unitsFrom_plain delimeters plain]
  rfl

theorem blockSlots_room (command : List UInt8) : maxArgs < blockSlots command := by
  simp only [blockSlots, maxArgs]
  omega

theorem parseTokensBlock_eq (command delimeters : List UInt8) (allowEmpty : Bool)
    (clean : 0 ∉ command) (plain : backslash ∉ delimeters) :
    parseTokensBlock command delimeters allowEmpty =
      verdictPast (blockSlots command)
        (pieces backslash (charInSet · delimeters) allowEmpty command) := by
  rw [parseTokensBlock, parseTokens_past command delimeters allowEmpty clean
    (blockSlots_room command), unitsFrom_plain delimeters plain]
  rfl

end Akiso.Shell
