import Akiso.Shared.EscapeAppend
import Akiso.Shell.Grammar
import Akiso.Shell.Reporting

set_option autoImplicit false

namespace Akiso.Shell

open CString Escape Strtol

def parseProcessBlock (command : List UInt8) : Except Stop ParsedProcess :=
  parseProcessWith parseTokensBlock command

-- interpret_line with all that its calls of parse_tokens have allocated.
def interpretLineBlock (run : Builtin → List (Option (List UInt8)) → Nat → ParseResult)
    (below : UInt8) (line : Line) : Except Stop LineOutcome :=
  interpretLineWith parseTokensBlock run below line

def Accepted (stage : List UInt8) : Prop :=
  (wordsOf stage).length < maxArgs ∧ Sequence IsBare IsAnyRedirect (wordsOf stage)

-- The sides of a redirect, cut at every mark, take more pointers than its block has room for.
def RedirectLeaves (token : List UInt8) : Prop :=
  OverrunsPast (blockSlots token)
    (referenceSplit [redirectMark (charInSet greater token)] true token)

def StageLeaves (stage : List UInt8) : Prop :=
  (wordsOf stage).length < maxArgs ∧ ∃ early token late, wordsOf stage = early ++ token :: late ∧
    Sequence IsBare IsAnyRedirect early ∧ RedirectLeaves token

section Verdicts

variable {slots : Nat} {tokens : List (List UInt8)}

theorem overrunsPast_filled (ample : maxArgs < slots) (filled : ∀ token ∈ tokens, token ≠ []) :
    ¬ OverrunsPast slots tokens := by
  rintro ⟨-, late⟩
  exact filled [] (List.mem_of_getElem? (late (maxArgs - 1) (by omega) le_rfl)) rfl

theorem overrunsPast_many (ample : maxArgs < slots) (overruns : OverrunsPast slots tokens) :
    maxArgs ≤ tokens.length := by
  have long := overruns.1
  omega

theorem counted_verdictPast :
    counted (verdictPast slots tokens) =
      if tokens.length < maxArgs then .ok tokens
      else if OverrunsPast slots tokens then .error .overrun else .ok [] := by
  unfold verdictPast
  split
  next => rfl
  next => split <;> rfl

theorem overrunsPast_extended {wider : Nat} {front : List (List UInt8)} {last longer : List UInt8}
    (more : slots ≤ wider) (overruns : OverrunsPast wider (front ++ [longer])) :
    OverrunsPast slots (front ++ [last]) := by
  obtain ⟨long, late⟩ := overruns
  rw [List.length_append, List.length_singleton] at long
  refine ⟨by rw [List.length_append, List.length_singleton]; omega, fun index low high => ?_⟩
  have blank := late index (by omega) high
  rwa [List.getElem?_append_left (by omega)] at blank ⊢

theorem blockSlots_mono {one other : List UInt8} (longer : one.length ≤ other.length) :
    blockSlots one ≤ blockSlots other :=
  Nat.div_le_div_right (by omega)

end Verdicts

section Redirect

variable {token : List UInt8} {isOut : Bool}

theorem redirectMark_plain (isOut : Bool) : backslash ∉ [redirectMark isOut] := by
  cases isOut <;> decide

theorem parseRedirectBlock_eq (clean : 0 ∉ token) (isOut : Bool) :
    parseRedirectWith parseTokensBlock token isOut =
      (counted (verdictPast (blockSlots token)
        (referenceSplit [redirectMark isOut] true token))).map (redirectOf isOut) := by
  rw [parseRedirectWith_eq, parseTokensBlock_eq _ _ _ clean (redirectMark_plain isOut)]
  rfl

theorem parseRedirectBlock_cases (clean : 0 ∉ token) (isOut : Bool) :
    (OverrunsPast (blockSlots token) (referenceSplit [redirectMark isOut] true token) ∧
      parseRedirectWith parseTokensBlock token isOut = .error .overrun) ∨
    (¬ OverrunsPast (blockSlots token) (referenceSplit [redirectMark isOut] true token) ∧
      ∃ result, parseRedirectWith parseTokensBlock token isOut = .ok result ∧
        ∀ redirect, result = some redirect ↔
          parseRedirect token isOut = .ok (some redirect)) := by
  rw [parseRedirectBlock_eq clean, parseRedirect_eq token isOut clean, counted_verdictPast]
  generalize referenceSplit [redirectMark isOut] true token = sides
  have room := blockSlots_room token
  by_cases few : sides.length < maxArgs
  next =>
    have short : ¬ OverrunsPast (blockSlots token) sides := fun overruns => by
      have many := overrunsPast_many room overruns
      omega
    rw [if_pos few, verdict_of_lt _ few]
    exact Or.inr ⟨short, redirectOf isOut sides, rfl, by simp [counted, Except.map]⟩
  next =>
    rw [if_neg few]
    by_cases overruns : OverrunsPast (blockSlots token) sides
    next => exact Or.inl ⟨overruns, by rw [if_pos overruns]; rfl⟩
    next =>
      rw [if_neg overruns]
      refine Or.inr ⟨overruns, none, rfl, fun redirect => ?_⟩
      have rejected : counted (verdict sides) = .ok [] ∨
          counted (verdict sides) = .error .overrun := by
        rw [verdict, if_neg few]
        split
        next => exact Or.inr rfl
        next => exact Or.inl rfl
      rcases rejected with answer | answer <;> simp [answer, Except.map, redirectOf]

theorem redirectLeaves_marked (leaves : RedirectLeaves token) : ¬ IsBare token := by
  rintro ⟨noIn, noOut⟩
  have many := overrunsPast_many (blockSlots_room token) leaves
  have whole : referenceSplit [redirectMark (charInSet greater token)] true token =
      [decodeAll backslash (charInSet · [redirectMark (charInSet greater token)])
        (items backslash token)] := by
    have absent : ∀ unit ∈ items backslash token,
        unit.cuts (charInSet · [redirectMark (charInSet greater token)]) = false := by
      apply (not_mem_iff_stays _ _).mp
      intro unescaped
      have marked : redirectMark (charInSet greater token) ∈ token :=
        itemsFrom_plain_subset token false _ unescaped
      cases out : charInSet greater token with
      | true => exact noOut (by simpa [redirectMark, out] using marked)
      | false => exact noIn (by simpa [redirectMark, out] using marked)
    simp [referenceSplit, pieces, split, keep, List.splitOnP_eq_singleton absent]
  rw [whole, List.length_singleton] at many
  exact absurd many (by decide)

end Redirect

section Scan

variable {tokens : List (List UInt8)} {index : Nat} {scan : ArgumentScan}

-- What the loop over the arguments accepts in its block is what it accepts with enough slots.
theorem scanTokensBlock_some (clean : ∀ token ∈ tokens, 0 ∉ token) (result : ArgumentScan) :
    scanTokensWith parseTokensBlock index tokens scan = .ok (some result) ↔
      scanTokens index tokens scan = .ok (some result) := by
  induction tokens generalizing index scan with
  | nil => exact Iff.rfl
  | cons token rest ih =>
    rw [List.forall_mem_cons] at clean
    by_cases bare : IsBare token
    next =>
      rw [scanTokensWith_bare _ bare, scanTokens_bare bare]
      split
      next => exact Iff.rfl
      next => exact ih clean.2
    next =>
      rw [scanTokensWith_marked _ bare, scanTokens_marked bare]
      split
      next => exact Iff.rfl
      next =>
        rcases parseRedirectBlock_cases clean.1 (charInSet greater token) with
          ⟨overruns, block⟩ | ⟨-, answer, block, same⟩
        next =>
          have refused : ∀ redirect,
              parseRedirect token (charInSet greater token) ≠ .ok (some redirect) := by
            intro redirect parsed
            obtain ⟨left, right, number, target, sides, -⟩ :=
              (parseRedirect_accepts_iff token _ redirect clean.1).mp parsed
            have many := overrunsPast_many (blockSlots_room token) overruns
            simp [sides, maxArgs] at many
          rw [block]
          cases parsed : parseRedirect token (charInSet greater token) with
          | error stop => simp [bind, Except.bind]
          | ok answer =>
            cases answer with
            | none => simp [bind, Except.bind]
            | some redirect => exact absurd parsed (refused redirect)
        next =>
          rw [block]
          cases answer with
          | some redirect =>
            rw [(same redirect).mp rfl]
            exact ih clean.2
          | none =>
            cases parsed : parseRedirect token (charInSet greater token) with
            | error stop => simp [bind, Except.bind]
            | ok other =>
              cases other with
              | none => simp [bind, Except.bind]
              | some redirect => simp [parsed] at same

theorem exists_split_cons {A : Type} {holds : List A → A → List A → Prop} {first : A}
    {rest : List A} :
    (∃ early item late, first :: rest = early ++ item :: late ∧ holds early item late) ↔
      holds [] first rest ∨
        ∃ early item late, rest = early ++ item :: late ∧ holds (first :: early) item late := by
  constructor
  · rintro ⟨early, item, late, same, held⟩
    cases early with
    | nil =>
      obtain ⟨rfl, rfl⟩ := List.cons.inj same
      exact Or.inl held
    | cons other early =>
      obtain ⟨rfl, rfl⟩ := List.cons.inj same
      exact Or.inr ⟨early, item, late, rfl, held⟩
  · rintro (held | ⟨early, item, late, rfl, held⟩)
    · exact ⟨[], first, rest, rfl, held⟩
    · exact ⟨first :: early, item, late, rfl, held⟩

theorem scanTokensBlock_error (clean : ∀ token ∈ tokens, 0 ∉ token) :
    (∃ stop, scanTokensWith parseTokensBlock index tokens scan = .error stop) ↔
      ∃ early token late, tokens = early ++ token :: late ∧ 0 < index + early.length ∧
        ScanAccepts index early scan ∧ RedirectLeaves token := by
  induction tokens generalizing index scan with
  | nil => simp [scanTokensWith]
  | cons token rest ih =>
    rw [List.forall_mem_cons] at clean
    have start : ScanAccepts index [] scan := ⟨scan, rfl⟩
    have later (early : List (List UInt8)) :
        index + (token :: early).length = index + 1 + early.length := by
      rw [List.length_cons]
      omega
    simp only [exists_split_cons, later, List.length_nil, Nat.add_zero, start, true_and]
    by_cases bare : IsBare token
    next =>
      have kept : ¬ RedirectLeaves token := fun leaves => redirectLeaves_marked leaves bare
      rw [scanTokensWith_bare _ bare]
      simp only [kept, and_false, false_or, ScanAccepts, scanTokens_bare bare]
      split
      next => simp
      next => exact ih clean.2
    next =>
      rw [scanTokensWith_marked _ bare]
      simp only [scanAccepts_marked bare]
      by_cases first : index = 0
      next => simp [first]
      next =>
        have positive : 0 < index := Nat.pos_of_ne_zero first
        simp only [first, if_false, positive, true_and]
        rcases parseRedirectBlock_cases clean.1 (charInSet greater token) with
          ⟨overruns, block⟩ | ⟨inside, answer, block, same⟩
        next =>
          rw [block]
          exact iff_of_true ⟨_, rfl⟩ (Or.inl overruns)
        next =>
          have kept : ¬ RedirectLeaves token := inside
          rw [block, or_iff_right kept]
          cases answer with
          | none =>
            have refused : ∀ redirect,
                parseRedirect token (charInSet greater token) ≠ .ok (some redirect) :=
              fun redirect parsed => absurd ((same redirect).mpr parsed) (by simp)
            simp [bind, Except.bind, refused]
          | some redirect =>
            have parsed := (same redirect).mp rfl
            simp only [parsed, Except.ok.injEq, Option.some.injEq, exists_eq_left']
            exact ih clean.2

end Scan

section Process

variable {stage : List UInt8}

theorem accepted_iff (clean : 0 ∉ stage) : Accepted stage ↔ ∃ process, Parses stage process := by
  by_cases room : (wordsOf stage).length < maxArgs ∧ wordsOf stage ≠ []
  next =>
    have accepts :=
      parseProcess_accepts_iff stage clean (List.length_pos_iff.mpr room.2) room.1
    exact (and_iff_right room.1).trans accepts.symm
  next =>
    apply iff_of_false
    · rintro ⟨few, words, redirects, same, filled, -⟩
      exact room ⟨few, by simp [same, filled]⟩
    · rintro ⟨process, parsed⟩
      rw [Parses, parseProcess_eq stage clean, if_neg room] at parsed
      cases parsed

def scanStart (stage : List UInt8) : ArgumentScan :=
  { process := { emptyProcess with arguments := (wordsOf stage).map some ++ [none] }
    redirectFound := false }

def scannedProcess (count : Nat) : Option ArgumentScan → ParsedProcess
  | none => .error
  | some scan =>
    .process (if scan.redirectFound then scan.process else { scan.process with argc := count })

theorem parseProcessWith_scan {tokenizer : Tokenizer}
    (tokens : counted (tokenizer stage whitespace false) =
      .ok (if (wordsOf stage).length < maxArgs then wordsOf stage else [])) :
    parseProcessWith tokenizer stage =
      if (wordsOf stage).length < maxArgs ∧ wordsOf stage ≠ [] then
        (scanTokensWith tokenizer 0 (wordsOf stage) (scanStart stage)).map
          (scannedProcess (wordsOf stage).length)
      else .ok .empty := by
  rw [parseProcessWith_eq tokens]
  split
  next =>
    change (scanTokensWith tokenizer 0 (wordsOf stage) (scanStart stage) >>= _) = _
    generalize scanTokensWith tokenizer 0 (wordsOf stage) (scanStart stage) = scanned
    rcases scanned with stop | (_ | scan)
    next => rfl
    next => rfl
    next => cases found : scan.redirectFound <;> simp [bind, Except.bind, Except.map,
      scannedProcess, found]
  next => rfl

theorem parseProcess_scan (clean : 0 ∉ stage) :
    parseProcess stage =
      if (wordsOf stage).length < maxArgs ∧ wordsOf stage ≠ [] then
        (scanTokens 0 (wordsOf stage) (scanStart stage)).map
          (scannedProcess (wordsOf stage).length)
      else .ok .empty := by
  apply parseProcessWith_scan
  rw [parseTokens_eq _ _ _ clean (by decide)]
  exact counted_wordsOf stage

theorem parseProcessBlock_scan (clean : 0 ∉ stage) :
    parseProcessBlock stage =
      if (wordsOf stage).length < maxArgs ∧ wordsOf stage ≠ [] then
        (scanTokensWith parseTokensBlock 0 (wordsOf stage) (scanStart stage)).map
          (scannedProcess (wordsOf stage).length)
      else .ok .empty := by
  apply parseProcessWith_scan
  have cut : parseTokensBlock stage whitespace false =
      verdictPast (blockSlots stage) (wordsOf stage) :=
    parseTokensBlock_eq _ _ _ clean (by decide)
  have inside := overrunsPast_filled (blockSlots_room stage) (wordsOf_filled stage)
  rw [cut, counted_verdictPast, if_neg inside]
  split
  next => rfl
  next => rfl

theorem scannedProcess_iff (count : Nat) (process : Process)
    (scanned : Except Stop (Option ArgumentScan)) :
    scanned.map (scannedProcess count) = .ok (.process process) ↔
      ∃ scan, scanned = .ok (some scan) ∧ scannedProcess count (some scan) = .process process := by
  rcases scanned with stop | (_ | scan)
  next => simp [Except.map]
  next => simp [Except.map, scannedProcess]
  next => simp [Except.map]

theorem parseProcessBlock_process (clean : 0 ∉ stage) (process : Process) :
    parseProcessBlock stage = .ok (.process process) ↔ Parses stage process := by
  rw [parseProcessBlock_scan clean, Parses, parseProcess_scan clean]
  split
  next =>
    have same (scan : ArgumentScan) :
        scanTokensWith parseTokensBlock 0 (wordsOf stage) (scanStart stage) = .ok (some scan) ↔
          scanTokens 0 (wordsOf stage) (scanStart stage) = .ok (some scan) :=
      scanTokensBlock_some (wordsOf_clean stage clean) scan
    rw [scannedProcess_iff, scannedProcess_iff]
    simp only [same]
  next => exact Iff.rfl

theorem vacant_iff (stage : List UInt8) :
    Vacant stage ↔ ¬ ((wordsOf stage).length < maxArgs ∧ wordsOf stage ≠ []) := by
  rw [Vacant, not_and_or, Nat.not_lt, not_not, or_comm]

theorem parseProcessBlock_empty (clean : 0 ∉ stage) :
    parseProcessBlock stage = .ok .empty ↔ Vacant stage := by
  rw [parseProcessBlock_scan clean, vacant_iff]
  split
  next room =>
    apply iff_of_false _ (not_not.mpr room)
    rcases scanTokensWith parseTokensBlock 0 (wordsOf stage) (scanStart stage) with
      stop | (_ | scan)
    next => exact nofun
    next => exact nofun
    next => exact nofun
  next vacant => exact iff_of_true rfl vacant

theorem parseProcessBlock_error (clean : 0 ∉ stage) :
    (∃ stop, parseProcessBlock stage = .error stop) ↔ StageLeaves stage := by
  rw [parseProcessBlock_scan clean, StageLeaves]
  split
  next room =>
    have stopped : (∃ stop, (scanTokensWith parseTokensBlock 0 (wordsOf stage)
          (scanStart stage)).map (scannedProcess (wordsOf stage).length) = .error stop) ↔
        ∃ stop, scanTokensWith parseTokensBlock 0 (wordsOf stage) (scanStart stage) =
          .error stop := by
      rcases scanTokensWith parseTokensBlock 0 (wordsOf stage) (scanStart stage) with
        stop | scanned
      next => simp [Except.map]
      next => simp [Except.map]
    rw [stopped, scanTokensBlock_error (wordsOf_clean stage clean), and_iff_right room.1]
    constructor
    · rintro ⟨early, token, late, same, filled, accepts, leaves⟩
      have cleanEarly : ∀ token ∈ early, 0 ∉ token := fun other member =>
        wordsOf_clean stage clean other (by simp [same, member])
      refine ⟨early, token, late, same, ?_, leaves⟩
      rw [Nat.zero_add] at filled
      exact (scanAccepts_start early _ cleanEarly rfl).mp ⟨filled, accepts⟩
    · rintro ⟨early, token, late, same, sequence, leaves⟩
      have cleanEarly : ∀ token ∈ early, 0 ∉ token := fun other member =>
        wordsOf_clean stage clean other (by simp [same, member])
      obtain ⟨filled, accepts⟩ :=
        (scanAccepts_start early (scanStart stage) cleanEarly rfl).mpr sequence
      exact ⟨early, token, late, same, by omega, accepts, leaves⟩
  next vacant =>
    apply iff_of_false
    · exact nofun
    · rintro ⟨few, early, token, late, same, -⟩
      exact vacant ⟨few, by simp [same]⟩

end Process

section Lines

variable {run : Builtin → List (Option (List UInt8)) → Nat → ParseResult} {below : UInt8}
  {line : Line}

/-- No pointer is stored outside a block: not for the stages of the line, and not in a stage with
accepted ones in front of it. -/
structure StaysInBlocks (line : Line) : Prop where
  stages : ¬ OverrunsPast (blockSlots (lineCommand line)) (stagesOf line)
  reached : (stagesOf line).length < maxArgs → ∀ early stage late,
    stagesOf line = early ++ stage :: late → (∀ other ∈ early, Accepted other) →
    ¬ StageLeaves stage

theorem stagesOf_block (line : Line) :
    parseTokensBlock (lineCommand line) [bar] true =
      verdictPast (blockSlots (lineCommand line)) (stagesOf line) :=
  parseTokensBlock_eq _ _ _ (lineCommand_clean line) (by decide)

theorem interpretLineBlock_few (few : (stagesOf line).length < maxArgs) :
    interpretLineBlock run below line =
      parseStagesWith parseTokensBlock (stagesOf line) [] >>= fun
        | .failed result => .ok { job := none, handoff := none, result }
        | .pipeline pipeline => .ok (dispatch run (lineJob below line pipeline)) := by
  rw [interpretLineBlock, interpretLineWith_eq, stagesOf_block line,
    counted_verdictPast, if_pos few]
  simp only [bind, Except.bind, List.length_eq_zero_iff, stagesOf_ne_nil, if_false]
  cases parseStagesWith parseTokensBlock (stagesOf line) [] with
  | error stop => rfl
  | ok result => cases result <;> rfl

theorem interpretLineBlock_many (many : maxArgs ≤ (stagesOf line).length) :
    interpretLineBlock run below line =
      if OverrunsPast (blockSlots (lineCommand line)) (stagesOf line) then .error .overrun
      else .ok { job := none, handoff := none,
                 result := if lineBackground below line then .syntaxError else .ok } := by
  rw [interpretLineBlock, interpretLineWith_eq, stagesOf_block line,
    counted_verdictPast, if_neg (Nat.not_lt.mpr many)]
  split
  next => rfl
  next => rfl

theorem accepted_cases (stages : List (List UInt8)) :
    (∀ stage ∈ stages, Accepted stage) ∨ ∃ early stage late, stages = early ++ stage :: late ∧
      (∀ other ∈ early, Accepted other) ∧ ¬ Accepted stage := by
  induction stages with
  | nil => exact Or.inl (by simp)
  | cons first rest ih =>
    by_cases accepted : Accepted first
    · rcases ih with all | ⟨early, stage, late, rfl, before, refused⟩
      · exact Or.inl (List.forall_mem_cons.mpr ⟨accepted, all⟩)
      · exact Or.inr ⟨first :: early, stage, late, rfl,
          List.forall_mem_cons.mpr ⟨accepted, before⟩, refused⟩
    · exact Or.inr ⟨[], first, rest, rfl, by simp, accepted⟩

theorem accepted_block {stage : List UInt8} (clean : 0 ∉ stage) :
    Accepted stage ↔ ∃ process, parseProcessBlock stage = .ok (.process process) := by
  simp only [accepted_iff clean, parseProcessBlock_process clean]

theorem parseStagesBlock_pipeline {stages : List (List UInt8)}
    (processes : ∀ stage ∈ stages, ∃ process, parseProcessBlock stage = .ok (.process process))
    (before : List Process) :
    ∃ pipeline, parseStagesWith parseTokensBlock stages before = .ok (.pipeline pipeline) := by
  induction stages generalizing before with
  | nil => exact ⟨before, rfl⟩
  | cons stage rest ih =>
    rw [List.forall_mem_cons] at processes
    obtain ⟨process, parsed⟩ := processes.1
    obtain ⟨pipeline, later⟩ := ih processes.2 (before ++ [process])
    rw [parseProcessBlock] at parsed
    exact ⟨pipeline, by rw [parseStagesWith, parsed]; exact later⟩

theorem interpretLineBlock_built (run : Builtin → List (Option (List UInt8)) → Nat → ParseResult)
    (below : UInt8) (few : (stagesOf line).length < maxArgs)
    (accepted : ∀ stage ∈ stagesOf line, Accepted stage) :
    ∃ outcome job, interpretLineBlock run below line = .ok outcome ∧ outcome.job = some job ∧
      job.fg = !lineBackground below line := by
  have processes : ∀ stage ∈ stagesOf line, ∃ process,
      parseProcessBlock stage = .ok (.process process) := fun stage member =>
    (accepted_block (stagesOf_clean line stage member)).mp (accepted stage member)
  obtain ⟨pipeline, loop⟩ := parseStagesBlock_pipeline processes []
  refine ⟨_, _, ?_, dispatch_job run (lineJob below line pipeline), rfl⟩
  rw [interpretLineBlock_few few, loop]
  rfl

theorem interpretLineBlock_stopped {early late : List (List UInt8)} {stage : List UInt8}
    (run : Builtin → List (Option (List UInt8)) → Nat → ParseResult) (below : UInt8)
    (few : (stagesOf line).length < maxArgs) (stages : stagesOf line = early ++ stage :: late)
    (accepted : ∀ other ∈ early, Accepted other) (refused : ¬ Accepted stage) :
    interpretLineBlock run below line = parseProcessBlock stage >>= fun result =>
      .ok { job := none, handoff := none,
            result := if result = .error then .syntaxError else .ok } := by
  have clean : ∀ other ∈ early ++ stage :: late, 0 ∉ other := stages ▸ stagesOf_clean line
  have processes : ∀ other ∈ early, ∃ process,
      parseProcessWith parseTokensBlock other = .ok (.process process) := fun other member =>
    (accepted_block (clean other (by simp [member]))).mp (accepted other member)
  have stops : ∀ process, parseProcessWith parseTokensBlock stage ≠ .ok (.process process) :=
    fun process parsed =>
      refused ((accepted_block (clean stage (by simp))).mpr ⟨process, parsed⟩)
  rw [interpretLineBlock_few few, stages,
    parseStagesWith_stop parseTokensBlock early late stage [] processes stops, parseProcessBlock]
  cases parseProcessWith parseTokensBlock stage <;> rfl

theorem StaysInBlocks.of_returned {outcome : LineOutcome}
    (returned : interpretLineBlock run below line = .ok outcome) : StaysInBlocks line := by
  constructor
  next =>
    intro overruns
    have many := overrunsPast_many (blockSlots_room _) overruns
    rw [interpretLineBlock_many many, if_pos overruns] at returned
    cases returned
  next =>
    intro few early stage late stages accepted leaves
    have clean : 0 ∉ stage := stagesOf_clean line stage (by simp [stages])
    obtain ⟨stop, stopped⟩ := (parseProcessBlock_error clean).mpr leaves
    have refused : ¬ Accepted stage := fun accepted => by
      obtain ⟨process, parsed⟩ := (accepted_block clean).mp accepted
      rw [stopped] at parsed
      cases parsed
    rw [interpretLineBlock_stopped run below few stages accepted refused, stopped] at returned
    cases returned

theorem StaysInBlocks.returns (stays : StaysInBlocks line) :
    ∃ outcome, interpretLineBlock run below line = .ok outcome := by
  by_cases few : (stagesOf line).length < maxArgs
  next =>
    rcases accepted_cases (stagesOf line) with
      accepted | ⟨early, stage, late, stages, accepted, refused⟩
    next =>
      obtain ⟨outcome, -, returned, -⟩ := interpretLineBlock_built run below few accepted
      exact ⟨outcome, returned⟩
    next =>
      have clean : 0 ∉ stage := stagesOf_clean line stage (by simp [stages])
      have inside := stays.reached few early stage late stages accepted
      rw [← parseProcessBlock_error clean] at inside
      rw [interpretLineBlock_stopped run below few stages accepted refused]
      cases parsed : parseProcessBlock stage with
      | error stop => exact absurd ⟨stop, parsed⟩ inside
      | ok result => exact ⟨_, rfl⟩
  next =>
    rw [interpretLineBlock_many (Nat.not_lt.mp few), if_neg stays.stages]
    exact ⟨_, rfl⟩

theorem interpretLineBlock_returns (run : Builtin → List (Option (List UInt8)) → Nat → ParseResult)
    (below : UInt8) (line : Line) :
    (∃ outcome, interpretLineBlock run below line = .ok outcome) ↔ StaysInBlocks line :=
  ⟨fun ⟨_, returned⟩ => .of_returned returned, fun stays => stays.returns⟩

end Lines

section Extended

variable {token stage : List UInt8}

theorem ampersand_stays : charInSet ampersand whitespace = false ∧
    ∀ isOut, ∀ c ∈ [ampersand], charInSet c [redirectMark isOut] = false := by
  refine ⟨by decide, fun isOut c member => ?_⟩
  obtain rfl := List.mem_singleton.mp member
  cases isOut <;> decide

theorem words_extended (stage : List UInt8) :
    wordsOf (stage ++ [ampersand]) = wordsOf stage ++ [[ampersand]] ∨
      ∃ front last, wordsOf stage = front ++ [last] ∧
        wordsOf (stage ++ [ampersand]) = front ++ [last ++ [ampersand]] :=
  pieces_extended backslash (charInSet · whitespace) stage ampersand_stays.1 (by decide)

theorem bare_extended : IsBare (token ++ [ampersand]) ↔ IsBare token := by
  simp [IsBare, less, greater, ampersand]

theorem mark_extended :
    charInSet greater (token ++ [ampersand]) = charInSet greater token := by
  rw [Bool.eq_iff_iff, charInSet_eq_true, charInSet_eq_true]
  simp [greater, ampersand]

theorem isAnyRedirect_extended (redirect : IsAnyRedirect (token ++ [ampersand])) :
    IsAnyRedirect token := by
  obtain ⟨marked, left, right, sides, leftRead, first, rest, same, rightRead⟩ := redirect
  rw [mark_extended, sides_iff] at sides
  obtain ⟨front, last, cut, longer⟩ := pieces_append backslash
    (charInSet · [redirectMark (charInSet greater token)]) token
  have extended := longer [ampersand] (ampersand_stays.2 _) (by decide)
  rw [referenceSplit, extended] at sides
  obtain ⟨rfl, rfl⟩ : front = [left] ∧ last ++ [ampersand] = right := by
    have split : [left, right] = [left] ++ [right] := rfl
    have pair := List.append_inj' (sides.trans split) rfl
    exact ⟨pair.1, (List.cons.inj pair.2).1⟩
  have shorter : referenceSplit [redirectMark (charInSet greater token)] true token =
      [left, last] := cut
  refine ⟨fun bare => marked (bare_extended.mpr bare), left, last,
    (sides_iff _ _ _ _).mpr shorter, leftRead, ?_⟩
  -- A right side that ends in '&' is no number, and '&' alone has none behind it.
  cases last with
  | nil =>
    obtain ⟨rfl, rfl⟩ := List.cons.inj same
    rcases rightRead with other | number
    · exact absurd rfl other
    · exact absurd number (by decide)
  | cons head tail =>
    obtain ⟨rfl, rfl⟩ := List.cons.inj same
    have none : written (tail ++ [ampersand]) = none :=
      written_other tail (by decide) (by decide) (by decide) (by decide)
    refine ⟨_, tail, rfl, rightRead.imp_right fun number => ?_⟩
    exact absurd (none ▸ number : (Option.none : Option Int).isSome = true) (by decide)

theorem redirectLeaves_extended (leaves : RedirectLeaves (token ++ [ampersand])) :
    RedirectLeaves token := by
  obtain ⟨front, last, cut, longer⟩ := pieces_append backslash
    (charInSet · [redirectMark (charInSet greater token)]) token
  have extended := longer [ampersand] (ampersand_stays.2 _) (by decide)
  rw [RedirectLeaves, mark_extended, referenceSplit, extended] at leaves
  rw [RedirectLeaves, referenceSplit, cut]
  exact overrunsPast_extended (blockSlots_mono (by simp)) leaves

theorem isBare_ampersand : IsBare [ampersand] := by
  simp [IsBare, less, greater, ampersand]

theorem sequence_extended (filled : wordsOf stage ≠ [])
    (sequence : Sequence IsBare IsAnyRedirect (wordsOf (stage ++ [ampersand]))) :
    Sequence IsBare IsAnyRedirect (wordsOf stage) := by
  obtain ⟨words, redirects, same, some, bares, redirected⟩ := sequence
  rcases List.eq_nil_or_concat redirects with rfl | ⟨others, final, rfl⟩
  next =>
    rw [List.append_nil] at same
    refine ⟨wordsOf stage, [], by simp, filled, ?_, by simp⟩
    rcases words_extended stage with longer | ⟨front, last, cut, longer⟩
    · intro token member
      exact bares token (by rw [← same, longer]; simp [member])
    · rw [cut]
      rw [longer] at same
      subst same
      simp only [List.forall_mem_append, List.forall_mem_singleton] at bares ⊢
      exact ⟨bares.1, bare_extended.mp bares.2⟩
  next =>
    rw [List.concat_eq_append, ← List.append_assoc] at same
    rw [List.concat_eq_append] at redirected
    simp only [List.forall_mem_append, List.forall_mem_singleton] at redirected
    rcases words_extended stage with longer | ⟨front, last, cut, longer⟩
    · rw [longer] at same
      obtain ⟨-, last⟩ := List.append_inj' same rfl
      obtain rfl := (List.cons.inj last).1
      exact absurd isBare_ampersand redirected.2.1
    · rw [longer] at same
      obtain ⟨rfl, end_eq⟩ := List.append_inj' same rfl
      obtain rfl := (List.cons.inj end_eq).1
      refine ⟨words, others ++ [last], by simp [cut], some, bares, ?_⟩
      simp only [List.forall_mem_append, List.forall_mem_singleton]
      exact ⟨redirected.1, isAnyRedirect_extended redirected.2⟩

theorem words_extended_length (stage : List UInt8) :
    (wordsOf stage).length ≤ (wordsOf (stage ++ [ampersand])).length := by
  rcases words_extended stage with longer | ⟨front, last, cut, longer⟩
  · simp [longer]
  · simp [cut, longer]

theorem stageLeaves_extended (leaves : StageLeaves (stage ++ [ampersand])) :
    StageLeaves stage := by
  obtain ⟨few, early, token, late, same, sequence, leaves⟩ := leaves
  refine ⟨Nat.lt_of_le_of_lt (words_extended_length stage) few, ?_⟩
  rcases List.eq_nil_or_concat late with rfl | ⟨others, final, rfl⟩
  next =>
    rcases words_extended stage with longer | ⟨front, last, cut, longer⟩
    · rw [longer] at same
      obtain ⟨-, last⟩ := List.append_inj' same rfl
      obtain rfl := (List.cons.inj last).1
      exact absurd isBare_ampersand (redirectLeaves_marked leaves)
    · rw [longer] at same
      obtain ⟨rfl, end_eq⟩ := List.append_inj' same rfl
      obtain rfl := (List.cons.inj end_eq).1
      exact ⟨front, last, [], cut, sequence, redirectLeaves_extended leaves⟩
  next =>
    rw [List.concat_eq_append, ← List.cons_append, ← List.append_assoc] at same
    rcases words_extended stage with longer | ⟨front, last, cut, longer⟩
    · rw [longer] at same
      obtain ⟨kept, -⟩ := List.append_inj' same rfl
      exact ⟨early, token, others, kept, sequence, leaves⟩
    · rw [longer] at same
      obtain ⟨rfl, -⟩ := List.append_inj' same rfl
      exact ⟨early, token, others ++ [last], by simp [cut], sequence, leaves⟩

end Extended

end Akiso.Shell
