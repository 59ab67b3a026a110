import Akiso.Shell.Tokenizer

set_option autoImplicit false

namespace Akiso.Shell

open CString

-- The run without the NULL behind the arguments, as long as the string area is used.
def parseArea (command delimeters : List UInt8) (allowEmpty : Bool) : Except Stop TokenState := do
  let state ← command.foldlM (tokenStep (maxArgs + 1) delimeters allowEmpty) TokenState.start
  finishTokens (maxArgs + 1) allowEmpty state

-- What is written behind the loop; the check of the count comes after the terminator.
def finishBytes (state : TokenState) : List UInt8 :=
  if state.escaped then [backslash, 0] else [0]

def writtenFrom (delimeters : List UInt8) (allowEmpty : Bool) :
    TokenState → List UInt8 → List UInt8
  | state, [] => state.buffer ++ finishBytes state
  | state, c :: rest =>
    match tokenStep (maxArgs + 1) delimeters allowEmpty state c with
    | .ok next => writtenFrom delimeters allowEmpty next rest
    | .error _ => state.buffer

def areaWritten (command delimeters : List UInt8) (allowEmpty : Bool) : List UInt8 :=
  writtenFrom delimeters allowEmpty TokenState.start command

theorem parseTokens_eq_parseArea (command delimeters : List UInt8) (allowEmpty : Bool) :
    parseTokens command delimeters allowEmpty =
      parseArea command delimeters allowEmpty >>= fun state =>
        if state.arguments.length ≤ maxArgs then .ok (state.arguments.map (stringAt state.buffer))
        else .error .overrun := by
  simp [parseTokens, tokensFrom, parseArea, pure, Except.pure]

-- A backslash that is waiting has its byte in reserve.
def TokenState.budget (state : TokenState) : Nat :=
  state.buffer.length + state.escaped.toNat

structure Laid (state : TokenState) : Prop where
  shape : ∃ closed current, state = layout closed current state.escaped ∧
    (∀ token ∈ closed, 0 ∉ token) ∧ 0 ∉ current.getD [] ∧
    (state.escaped = true → current.isSome = true)

structure Charged (state next : TokenState) : Prop where
  laid : Laid next
  budget : next.budget ≤ state.budget + 1

variable {delimeters : List UInt8} {allowEmpty : Bool} {state next : TokenState} {c : UInt8}
  {closed : List (List UInt8)}

theorem laid_open (current : List UInt8) (escaped : Bool) (clean : ∀ token ∈ closed, 0 ∉ token)
    (last : 0 ∉ current) : Laid (layout closed (some current) escaped) :=
  ⟨closed, some current, rfl, clean, last, fun _ => rfl⟩

theorem laid_closed (clean : ∀ token ∈ closed, 0 ∉ token) : Laid (layout closed none false) :=
  ⟨closed, none, rfl, clean, by simp, nofun⟩

theorem clean_append {token : List UInt8} (clean : ∀ token ∈ closed, 0 ∉ token)
    (last : 0 ∉ token) : ∀ other ∈ closed ++ [token], 0 ∉ other := by
  intro other member
  rcases List.mem_append.mp member with earlier | member
  · exact clean other earlier
  · rwa [List.mem_singleton.mp member]

theorem writeSymbol_charged (current : List UInt8) (escaped : Bool)
    (clean : ∀ token ∈ closed, 0 ∉ token) (last : 0 ∉ current) (nonzero : c ≠ 0) :
    Charged (layout closed (some current) escaped)
      (writeSymbol (layout closed (some current) escaped) c) := by
  have other : (0 : UInt8) ≠ c := Ne.symm nonzero
  cases escaped with
  | false =>
    rw [writeSymbol_open]
    by_cases escape : c = backslash
    · rw [if_pos escape]
      exact ⟨laid_open current true clean last, by simp [TokenState.budget, layout]⟩
    · rw [if_neg escape]
      refine ⟨laid_open _ false clean (by simp [last, other]), ?_⟩
      simp [TokenState.budget, layout, Nat.add_assoc]
  | true =>
    rw [writeSymbol_escaped]
    refine ⟨laid_open _ false clean ?_, ?_⟩
    · split <;> simp [last, other, backslash]
    · split <;> simp [TokenState.budget, layout] <;> omega

theorem symbol_charged (laid : Laid state) (nonzero : c ≠ 0)
    (begun : beginArgument (maxArgs + 1) state = .ok next) :
    Charged state (writeSymbol next c) := by
  obtain ⟨closed, current, shape, clean, last, pending⟩ := laid.shape
  cases current with
  | some current =>
    rw [shape, beginArgument_open] at begun
    cases begun
    rw [shape]
    exact writeSymbol_charged current state.escaped clean last nonzero
  | none =>
    have lowered : state.escaped = false := Bool.eq_false_iff.mpr fun set => by
      simpa using pending set
    rw [lowered] at shape
    rw [shape, beginArgument_none] at begun
    split at begun
    · cases begun
    · split at begun
      · cases begun
      · cases begun
        have charged := writeSymbol_charged (c := c) [] false clean (by simp) nonzero
        refine ⟨charged.laid, charged.budget.trans ?_⟩
        simp [shape, TokenState.budget, layout]

theorem delimit_charged (laid : Laid state) (lowered : state.escaped = false)
    (delimited : delimitArgument (maxArgs + 1) allowEmpty state = .ok next) :
    Charged state next := by
  obtain ⟨closed, current, shape, clean, last, pending⟩ := laid.shape
  rw [lowered] at shape
  cases current with
  | some current =>
    rw [shape, delimitArgument_open] at delimited
    cases delimited
    refine ⟨laid_closed (clean_append clean last), ?_⟩
    simp [shape, TokenState.budget, layout, Nat.add_assoc]
  | none =>
    rw [shape, delimitArgument_none] at delimited
    split at delimited
    · split at delimited
      · cases delimited
      · cases delimited
        refine ⟨laid_closed (clean_append clean (by simp)), ?_⟩
        simp [shape, TokenState.budget, layout]
    · cases delimited
      exact ⟨shape ▸ laid, by simp [shape, TokenState.budget]⟩

-- An escaped delimiter loses its backslash, and the byte held in reserve for it.
theorem lowered_laid (laid : Laid state) : Laid { state with escaped := false } := by
  obtain ⟨closed, current, shape, clean, last, _⟩ := laid.shape
  exact ⟨closed, current, by rw [shape]; rfl, clean, last, nofun⟩

theorem tokenStep_charged (laid : Laid state) (nonzero : c ≠ 0)
    (stepped : tokenStep (maxArgs + 1) delimeters allowEmpty state c = .ok next) :
    Charged state next := by
  by_cases cut : (charInSet c delimeters && !state.escaped) = true
  · rw [tokenStep, if_pos cut] at stepped
    simp only [Bool.and_eq_true, Bool.not_eq_true'] at cut
    exact delimit_charged laid cut.2 stepped
  · rw [tokenStep, if_neg cut] at stepped
    dsimp only at stepped
    cases begun : beginArgument (maxArgs + 1)
        (if charInSet c delimeters then { state with escaped := false } else state) with
    | error stop =>
      rw [begun] at stepped
      cases stepped
    | ok middle =>
      rw [begun] at stepped
      cases stepped
      split at begun
      · have charged := symbol_charged (lowered_laid laid) nonzero begun
        refine ⟨charged.laid, charged.budget.trans ?_⟩
        simp [TokenState.budget]
      · exact symbol_charged laid nonzero begun

theorem written_le (laid : Laid state) {command : List UInt8} (clean : 0 ∉ command) :
    (writtenFrom delimeters allowEmpty state command).length ≤
      state.budget + command.length + 1 := by
  induction command generalizing state with
  | nil =>
    cases escaped : state.escaped <;>
      simp [writtenFrom, finishBytes, TokenState.budget, escaped]
  | cons c rest ih =>
    simp only [List.mem_cons, not_or] at clean
    cases stepped : tokenStep (maxArgs + 1) delimeters allowEmpty state c with
    | error stop =>
      simp only [writtenFrom, stepped, TokenState.budget]
      omega
    | ok next =>
      have charged := tokenStep_charged laid (Ne.symm clean.1) stepped
      have rest := ih charged.laid clean.2
      have budget := charged.budget
      simp only [writtenFrom, stepped, List.length_cons]
      omega

theorem fold_written (laid : Laid state) {command : List UInt8} (clean : 0 ∉ command)
    {last : TokenState}
    (folded : command.foldlM (tokenStep (maxArgs + 1) delimeters allowEmpty) state = .ok last) :
    Laid last ∧
      writtenFrom delimeters allowEmpty state command = last.buffer ++ finishBytes last := by
  induction command generalizing state with
  | nil =>
    cases folded
    exact ⟨laid, rfl⟩
  | cons c rest ih =>
    simp only [List.mem_cons, not_or] at clean
    rw [List.foldlM_cons] at folded
    cases stepped : tokenStep (maxArgs + 1) delimeters allowEmpty state c with
    | error stop => simp [stepped, bind, Except.bind] at folded
    | ok next =>
      simp only [stepped, bind, Except.bind] at folded
      have charged := tokenStep_charged laid (Ne.symm clean.1) stepped
      simpa [writtenFrom, stepped] using ih charged.laid clean.2 folded

theorem separate_layout (closed : List (List UInt8)) (current : List UInt8)
    (clean : ∀ token ∈ closed, 0 ∉ token) (last : 0 ∉ current) :
    Separate (terminated closed ++ current ++ [0])
      (offsetsFrom 0 closed ++ [(terminated closed).length]) := by
  simpa [offsetsFrom_append] using separate_offsetsFrom [] _ [] (clean_append clean last)

theorem finish_separate (laid : Laid state)
    (finished : finishTokens (maxArgs + 1) allowEmpty state = .ok next) :
    next.buffer = state.buffer ++ finishBytes state ∧ Separate next.buffer next.arguments := by
  obtain ⟨closed, current, shape, clean, last, pending⟩ := laid.shape
  cases current with
  | some current =>
    cases escaped : state.escaped with
    | true =>
      rw [shape, escaped] at finished ⊢
      cases finished
      refine ⟨rfl, ?_⟩
      have tail : 0 ∉ current ++ [backslash] := by simpa [backslash] using last
      simpa [TokenState.write, layout] using separate_layout closed _ clean tail
    | false =>
      rw [shape, escaped] at finished ⊢
      cases finished
      exact ⟨rfl, by simpa [TokenState.write, layout] using separate_layout closed _ clean last⟩
  | none =>
    have lowered : state.escaped = false := Bool.eq_false_iff.mpr fun set => by
      simpa using pending set
    rw [shape, lowered] at finished ⊢
    cases allowEmpty with
    | false =>
      cases finished
      refine ⟨rfl, ?_⟩
      simpa [TokenState.write, layout] using separate_offsetsFrom [] closed [0] clean
    | true =>
      by_cases room : closed.length < maxArgs + 1
      · by_cases full : maxArgs ≤ closed.length + 1
        · simp [finishTokens, storeArgument, layout, room, full, bind, Except.bind] at finished
        · have kept : next = { layout closed (some []) false with addArg := true }.write [0] := by
            simpa [finishTokens, storeArgument, layout, room, full, bind, Except.bind, pure,
              Except.pure] using finished.symm
          rw [kept]
          refine ⟨by simp [TokenState.write, finishBytes, layout], ?_⟩
          simpa [TokenState.write, layout] using separate_layout closed [] clean (by simp)
      · simp [finishTokens, storeArgument, layout, room, bind, Except.bind] at finished

/-- parse_tokens writes no more than the len + 1 bytes allocated for the strings, and the tokens it
answers with are strings of that area, each ending in front of the next. -/
theorem parseTokens_area (command delimeters : List UInt8) (allowEmpty : Bool)
    (clean : 0 ∉ command) :
    (areaWritten command delimeters allowEmpty).length ≤ command.length + 1 ∧
      ∀ tokens, parseTokens command delimeters allowEmpty = .ok tokens →
        ∃ state, parseArea command delimeters allowEmpty = .ok state ∧
          state.buffer = areaWritten command delimeters allowEmpty ∧
          tokens = state.arguments.map (stringAt state.buffer) ∧
          Separate state.buffer state.arguments := by
  have none : ∀ token ∈ ([] : List (List UInt8)), 0 ∉ token := by simp
  have start : Laid TokenState.start := laid_closed none
  constructor
  · have charged : (areaWritten command delimeters allowEmpty).length ≤
        TokenState.start.budget + command.length + 1 := written_le start clean
    simpa [TokenState.budget, TokenState.start] using charged
  · intro tokens parsed
    rw [parseTokens_eq_parseArea] at parsed
    cases folded :
      command.foldlM (tokenStep (maxArgs + 1) delimeters allowEmpty) TokenState.start with
    | error stop => simp [parseArea, folded, bind, Except.bind] at parsed
    | ok last =>
      have area : parseArea command delimeters allowEmpty =
          finishTokens (maxArgs + 1) allowEmpty last := by
        simp [parseArea, folded, bind, Except.bind]
      obtain ⟨laid, written⟩ := fold_written start clean folded
      cases finished : finishTokens (maxArgs + 1) allowEmpty last with
      | error stop => simp [area, finished, bind, Except.bind] at parsed
      | ok state =>
        obtain ⟨buffer, separate⟩ := finish_separate laid finished
        refine ⟨state, area.trans finished, buffer.trans written.symm, ?_, separate⟩
        rw [area, finished] at parsed
        simp only [bind, Except.bind] at parsed
        split at parsed
        · exact (Except.ok.inj parsed).symm
        · cases parsed

theorem parseTokens_area_tight :
    (areaWritten [97, 92, 98] whitespace false).length ≤ 4 ∧
      areaWritten [97, 92, 98] whitespace false = [97, 92, 98, 0] :=
  ⟨(parseTokens_area [97, 92, 98] whitespace false (by decide)).1, by decide⟩

end Akiso.Shell
