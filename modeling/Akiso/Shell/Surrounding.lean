import Akiso.Shell.Blocks

set_option autoImplicit false

namespace Akiso.Shell

open CString Escape

structure Bare (text : List UInt8) : Prop where
  begins : ∃ first rest, text = first :: rest ∧ first ∉ whitespace
  ends : ∃ front last, text = front ++ [last] ∧ last ∉ whitespace ∧ last ≠ backslash

-- A stage before the last one is refused. Or the last one is: it has words, and the '&' is not the
-- one that makes them too many.
def RefusedAlike (text : List UInt8) : Prop :=
  ∃ front last, pieces backslash (charInSet · [bar]) true text = front ++ [last] ∧
    (front ++ [last]).length < maxArgs ∧
      ((∃ stage ∈ front, ¬ Accepted stage) ∨ ¬ Accepted last ∧ wordsOf last ≠ [] ∧
        (maxArgs ≤ (wordsOf last).length ∨ (wordsOf (last ++ [ampersand])).length < maxArgs))

def Alike (run : Builtin → List (Option (List UInt8)) → Nat → ParseResult) (below : UInt8)
    (one other : Line) : Prop :=
  ∃ outcome, interpretLineBlock run below one = .ok outcome ∧
    interpretLineBlock run below other = .ok outcome

theorem Bare.prepared {text before after : List UInt8} (bare : Bare text)
    (blankBefore : ∀ c ∈ before, c ∈ whitespace) (blankAfter : ∀ c ∈ after, c ∈ whitespace) :
    trimmed (trimFront (before ++ text ++ after) whitespace) = text ++ after.dropLast := by
  obtain ⟨first, rest, begins, dark⟩ := bare.begins
  obtain ⟨front, last, ends, other, -⟩ := bare.ends
  have opened : trimFront (before ++ text ++ after) whitespace = text ++ after := by
    rw [trimFront, List.append_assoc, List.dropWhile_append_of_pos (by simpa using blankBefore),
      begins, List.cons_append, List.dropWhile_cons_of_neg (by simpa using dark)]
  rw [opened]
  rcases List.eq_nil_or_concat after with rfl | ⟨kept, cut, rfl⟩
  · simp [trimmed, ends, other]
  · rw [List.concat_eq_append] at blankAfter ⊢
    have blank : cut ∈ whitespace := blankAfter cut (by simp)
    have long : 1 < (text ++ (kept ++ [cut])).length := by
      rw [begins, List.length_append, List.length_append, List.length_cons, List.length_singleton]
      omega
    rw [← List.append_assoc] at long ⊢
    simp only [trimmed, List.getLast?_concat, List.dropLast_concat]
    rw [if_pos ⟨long, blank⟩]

section Lines

variable {run : Builtin → List (Option (List UInt8)) → Nat → ParseResult} {below : UInt8}
  {one other : Line} {front : List (List UInt8)} {first second : List UInt8}

theorem alike_of_eq (same : interpretLineBlock run below one = interpretLineBlock run below other) :
    Alike run below one other ↔ StaysInBlocks other := by
  rw [Alike, same, ← interpretLineBlock_returns run below other]
  simp only [and_self]

theorem interpretLineBlock_congr (same : trimmed (trimFront one.bytes whitespace) =
    trimmed (trimFront other.bytes whitespace)) :
    interpretLineBlock run below one = interpretLineBlock run below other := by
  have command : lineCommand one = lineCommand other := by
    unfold lineCommand
    rw [same]
  have background : lineBackground below one = lineBackground below other := by
    unfold lineBackground
    rw [same]
  rw [interpretLineBlock, interpretLineBlock, interpretLineWith_eq, interpretLineWith_eq, command,
    background]

theorem parseStagesBlock_concat (same : parseProcessBlock first = parseProcessBlock second)
    (front : List (List UInt8)) (before : List Process) :
    parseStagesWith parseTokensBlock (front ++ [first]) before =
      parseStagesWith parseTokensBlock (front ++ [second]) before := by
  unfold parseProcessBlock at same
  induction front generalizing before with
  | nil => simp only [List.nil_append, parseStagesWith, same]
  | cons stage rest ih =>
    simp only [List.cons_append, parseStagesWith]
    cases parseProcessWith parseTokensBlock stage with
    | error stop => rfl
    | ok result =>
      cases result with
      | process process => exact ih (before ++ [process])
      | empty => rfl
      | error => rfl

theorem alike_last (stages : stagesOf one = front ++ [first])
    (otherStages : stagesOf other = front ++ [second])
    (parsed : parseProcessBlock first = parseProcessBlock second)
    (background : lineBackground below one = lineBackground below other)
    (longer : (lineCommand other).length ≤ (lineCommand one).length) :
    Alike run below one other ↔ StaysInBlocks other := by
  have length : (stagesOf one).length = (stagesOf other).length := by
    rw [stages, otherStages, List.length_append, List.length_append]
    rfl
  by_cases few : (stagesOf one).length < maxArgs
  next =>
    apply alike_of_eq
    have jobs : lineJob below one = lineJob below other := by
      funext pipeline
      rw [lineJob, lineJob, background, length]
    rw [interpretLineBlock_few few, interpretLineBlock_few (length ▸ few), jobs, stages,
      otherStages, parseStagesBlock_concat parsed]
  next =>
    rw [Alike, ← interpretLineBlock_returns run below other,
      interpretLineBlock_many (Nat.not_lt.mp few),
      interpretLineBlock_many (length ▸ Nat.not_lt.mp few), background]
    have wider := blockSlots_mono longer
    by_cases overruns : OverrunsPast (blockSlots (lineCommand other)) (stagesOf other)
    · simp [overruns]
    · have inside : ¬ OverrunsPast (blockSlots (lineCommand one)) (stagesOf one) := fun past => by
        rw [stages] at past
        exact overruns (otherStages ▸ overrunsPast_extended wider past)
      simp [overruns, inside]

end Lines

section Stages

variable {stage tail : List UInt8}

theorem wordsOf_blank
    (settled : stage = [] ∨ ∃ front last, stage = front ++ [last] ∧ last ≠ backslash)
    (blank : ∀ c ∈ tail, c ∈ whitespace) : wordsOf (stage ++ tail) = wordsOf stage := by
  have cutting : ∀ c ∈ tail, charInSet c whitespace = true := by simpa using blank
  have plain : backslash ∉ tail := fun member => absurd (blank _ member) (by decide)
  rcases settled with rfl | ⟨front, last, rfl, other⟩
  · rw [List.nil_append, wordsOf, pieces_nothing backslash _ cutting plain]
    rfl
  · exact pieces_delimiters backslash _ other cutting plain

theorem clean_blank (clean : 0 ∉ stage) (blank : ∀ c ∈ tail, c ∈ whitespace) :
    0 ∉ stage ++ tail := by
  intro member
  rcases List.mem_append.mp member with member | member
  · exact clean member
  · exact absurd (blank 0 member) (by decide)

theorem parseProcessBlock_words {other : List UInt8} (clean : 0 ∉ stage) (otherClean : 0 ∉ other)
    (words : wordsOf other = wordsOf stage) :
    parseProcessBlock other = parseProcessBlock stage := by
  rw [parseProcessBlock_scan otherClean, parseProcessBlock_scan clean, scanStart, scanStart, words]

def refusal (parsed : Except Stop ParsedProcess) : Except Stop LineOutcome :=
  parsed >>= fun result =>
    .ok { job := none, handoff := none,
          result := if result = .error then .syntaxError else .ok }

theorem refusal_cases (clean : 0 ∉ stage) (refused : ¬ Accepted stage) :
    Vacant stage ∧ ¬ StageLeaves stage ∧
        refusal (parseProcessBlock stage) =
          .ok { job := none, handoff := none, result := .ok } ∨
      ¬ Vacant stage ∧ StageLeaves stage ∧
        (∃ stop, refusal (parseProcessBlock stage) = .error stop) ∨
      ¬ Vacant stage ∧ ¬ StageLeaves stage ∧
        refusal (parseProcessBlock stage) =
          .ok { job := none, handoff := none, result := .syntaxError } := by
  rw [← parseProcessBlock_empty clean, ← parseProcessBlock_error clean]
  rw [accepted_block clean] at refused
  generalize parseProcessBlock stage = parsed at refused ⊢
  rcases parsed with stop | (process | _ | _)
  next => exact Or.inr (Or.inl ⟨nofun, ⟨stop, rfl⟩, stop, rfl⟩)
  next => exact absurd ⟨process, rfl⟩ refused
  next => exact Or.inl ⟨rfl, nofun, rfl⟩
  next => exact Or.inr (Or.inr ⟨nofun, nofun, rfl⟩)

theorem accepted_ampersand (none : wordsOf stage = []) : Accepted (stage ++ [ampersand]) := by
  have words : wordsOf (stage ++ [ampersand]) = [[ampersand]] := by
    rcases words_extended stage with longer | ⟨front, last, cut, -⟩
    · rw [longer, none, List.nil_append]
    · simp [none] at cut
  rw [Accepted, words]
  refine ⟨by decide, [[ampersand]], [], rfl, by simp, ?_, by simp⟩
  simpa using isBare_ampersand

theorem accepted_extended (filled : wordsOf stage ≠ [])
    (accepted : Accepted (stage ++ [ampersand])) : Accepted stage :=
  ⟨Nat.lt_of_le_of_lt (words_extended_length stage) accepted.1,
    sequence_extended filled accepted.2⟩

theorem refusals_alike_iff (clean : 0 ∉ stage) (refused : ¬ Accepted stage)
    (otherRefused : ¬ Accepted (stage ++ [ampersand])) :
    (∃ outcome, refusal (parseProcessBlock (stage ++ [ampersand])) = .ok outcome ∧
        refusal (parseProcessBlock stage) = .ok outcome) ↔
      ¬ StageLeaves stage ∧ wordsOf stage ≠ [] ∧
        (maxArgs ≤ (wordsOf stage).length ∨
          (wordsOf (stage ++ [ampersand])).length < maxArgs) := by
  have filled : wordsOf stage ≠ [] := fun none => otherRefused (accepted_ampersand none)
  have longer := words_extended_length stage
  have otherFilled : wordsOf (stage ++ [ampersand]) ≠ [] := fun none => by
    rw [none, List.length_nil] at longer
    exact filled (List.length_eq_zero_iff.mp (by omega))
  have vacant : Vacant stage ↔ maxArgs ≤ (wordsOf stage).length := by simp [Vacant, filled]
  have otherVacant : Vacant (stage ++ [ampersand]) ↔
      maxArgs ≤ (wordsOf (stage ++ [ampersand])).length := by simp [Vacant, otherFilled]
  have otherClean : 0 ∉ stage ++ [ampersand] := by simpa [ampersand] using clean
  rcases refusal_cases clean refused with
    ⟨empty, inside, answer⟩ | ⟨some, leaves, stop, answer⟩ | ⟨some, inside, answer⟩
  next =>
    have many := vacant.mp empty
    rcases refusal_cases otherClean otherRefused with
      ⟨-, -, otherAnswer⟩ | ⟨otherSome, -⟩ | ⟨otherSome, -⟩
    · exact iff_of_true ⟨_, otherAnswer, answer⟩ ⟨inside, filled, Or.inl many⟩
    · exact absurd (otherVacant.mpr (by omega)) otherSome
    · exact absurd (otherVacant.mpr (by omega)) otherSome
  next =>
    apply iff_of_false
    · rintro ⟨outcome, -, returned⟩
      rw [answer] at returned
      cases returned
    · exact fun stays => stays.1 leaves
  next =>
    have few : ¬ maxArgs ≤ (wordsOf stage).length := mt vacant.mpr some
    rcases refusal_cases otherClean otherRefused with
      ⟨otherEmpty, -, otherAnswer⟩ | ⟨-, leaves, -⟩ | ⟨otherSome, -, otherAnswer⟩
    · apply iff_of_false
      · rintro ⟨outcome, otherReturned, returned⟩
        have same := otherAnswer.symm.trans (otherReturned.trans (returned.symm.trans answer))
        cases same
      · rintro ⟨-, -, many | short⟩
        · exact few many
        · exact absurd (otherVacant.mp otherEmpty) (Nat.not_le.mpr short)
    · exact absurd (stageLeaves_extended leaves) inside
    · refine iff_of_true ⟨_, otherAnswer, answer⟩ ⟨inside, filled, Or.inr ?_⟩
      exact Nat.not_le.mp (mt otherVacant.mpr otherSome)

end Stages

section Background

variable {run : Builtin → List (Option (List UInt8)) → Nat → ParseResult} {below : UInt8}
  {one other : Line} {front : List (List UInt8)} {first last : List UInt8}

theorem interpretLineBlock_refused (run : Builtin → List (Option (List UInt8)) → Nat → ParseResult)
    (below : UInt8) (stages : stagesOf one = front ++ [last])
    (few : (stagesOf one).length < maxArgs) (accepted : ∀ stage ∈ front, Accepted stage)
    (refused : ¬ Accepted last) :
    interpretLineBlock run below one = refusal (parseProcessBlock last) :=
  interpretLineBlock_stopped run below few stages accepted refused

theorem refusal_job {parsed : Except Stop ParsedProcess} {outcome : LineOutcome}
    (returned : refusal parsed = .ok outcome) : outcome.job = none := by
  cases parsed with
  | error stop => cases returned
  | ok result =>
    cases returned
    rfl

theorem interpretLineBlock_job {outcome : LineOutcome} {job : Job}
    (returned : interpretLineBlock run below one = .ok outcome) (handed : outcome.job = some job) :
    (∀ stage ∈ stagesOf one, Accepted stage) ∧ job.fg = !lineBackground below one := by
  by_cases few : (stagesOf one).length < maxArgs
  next =>
    rcases accepted_cases (stagesOf one) with
      accepted | ⟨early, stage, late, stages, accepted, refused⟩
    next =>
      obtain ⟨_, built, again, same, ground⟩ := interpretLineBlock_built run below few accepted
      obtain rfl := Except.ok.inj (again.symm.trans returned)
      obtain rfl := Option.some.inj (same.symm.trans handed)
      exact ⟨accepted, ground⟩
    next =>
      rw [interpretLineBlock_stopped run below few stages accepted refused] at returned
      simp [refusal_job returned] at handed
  next =>
    rw [interpretLineBlock_many (Nat.not_lt.mp few)] at returned
    split at returned
    · cases returned
    · cases returned
      cases handed

theorem alike_last_iff (stages : stagesOf one = front ++ [first])
    (otherStages : stagesOf other = front ++ [last]) (ground : lineBackground below one = false)
    (background : lineBackground below other = true) (few : (front ++ [last]).length < maxArgs)
    (accepted : ∀ stage ∈ front, Accepted stage)
    (words : wordsOf first = wordsOf (last ++ [ampersand])) :
    Alike run below one other ↔ StaysInBlocks other ∧ ¬ Accepted last ∧ wordsOf last ≠ [] ∧
      (maxArgs ≤ (wordsOf last).length ∨ (wordsOf (last ++ [ampersand])).length < maxArgs) := by
  have length : (front ++ [first]).length = (front ++ [last]).length := by
    rw [List.length_append, List.length_append]
    rfl
  have oneFew : (stagesOf one).length < maxArgs := by rw [stages, length]; exact few
  have otherFew : (stagesOf other).length < maxArgs := by rw [otherStages]; exact few
  have clean : 0 ∉ last := stagesOf_clean other last (by simp [otherStages])
  have firstClean : 0 ∉ first := stagesOf_clean one first (by simp [stages])
  have longClean : 0 ∉ last ++ [ampersand] := by simpa [ampersand] using clean
  have parsed := parseProcessBlock_words longClean firstClean words
  have same : Accepted first ↔ Accepted (last ++ [ampersand]) := by rw [Accepted, Accepted, words]
  have all : ∀ stage, Accepted stage → ∀ other ∈ front ++ [stage], Accepted other := by
    intro stage here
    simp only [List.forall_mem_append, List.forall_mem_singleton]
    exact ⟨accepted, here⟩
  by_cases built : Accepted last
  next =>
    apply iff_of_false _ fun refused => refused.2.1 built
    rintro ⟨outcome, oneReturned, returned⟩
    obtain ⟨_, job, again, handed, flag⟩ :=
      interpretLineBlock_built run below otherFew (otherStages ▸ all last built)
    obtain rfl := Except.ok.inj (again.symm.trans returned)
    have oneFlag := (interpretLineBlock_job oneReturned handed).2
    simp [flag, ground, background] at oneFlag
  next =>
    have answer := interpretLineBlock_refused run below otherStages otherFew accepted built
    by_cases oneBuilt : Accepted (last ++ [ampersand])
    next =>
      apply iff_of_false _ fun refused => built (accepted_extended refused.2.2.1 oneBuilt)
      rintro ⟨outcome, oneReturned, returned⟩
      obtain ⟨_, job, again, handed, -⟩ :=
        interpretLineBlock_built run below oneFew (stages ▸ all first (same.mpr oneBuilt))
      obtain rfl := Except.ok.inj (again.symm.trans oneReturned)
      have taken := (interpretLineBlock_job returned handed).1
      exact built (taken last (by simp [otherStages]))
    next =>
      have oneAnswer := interpretLineBlock_refused run below stages oneFew accepted
        (mt same.mp oneBuilt)
      rw [Alike, oneAnswer, answer, parsed, refusals_alike_iff clean built oneBuilt,
        and_iff_right built, ← interpretLineBlock_returns run below other, answer]
      apply and_congr_left'
      rcases refusal_cases clean built with
        ⟨-, inside, returned⟩ | ⟨-, leaves, stop, stopped⟩ | ⟨-, inside, returned⟩
      · exact iff_of_true inside ⟨_, returned⟩
      · exact iff_of_false (not_not.mpr leaves) (by simp [stopped])
      · exact iff_of_true inside ⟨_, returned⟩

theorem alike_stopped {late otherLate early : List (List UInt8)} {stage : List UInt8}
    (stages : stagesOf one = early ++ stage :: late)
    (otherStages : stagesOf other = early ++ stage :: otherLate)
    (few : (stagesOf one).length < maxArgs) (otherFew : (stagesOf other).length < maxArgs)
    (accepted : ∀ stage ∈ early, Accepted stage) (refused : ¬ Accepted stage) :
    Alike run below one other ↔ StaysInBlocks other := by
  have stopped := interpretLineBlock_stopped run below few stages accepted refused
  have otherStopped := interpretLineBlock_stopped run below otherFew otherStages accepted refused
  exact alike_of_eq (stopped.trans otherStopped.symm)

theorem not_alike_many (many : maxArgs ≤ (stagesOf one).length)
    (otherMany : maxArgs ≤ (stagesOf other).length) (ground : lineBackground below one = false)
    (background : lineBackground below other = true) : ¬ Alike run below one other := by
  rintro ⟨outcome, oneReturned, returned⟩
  rw [interpretLineBlock_many many, ground] at oneReturned
  rw [interpretLineBlock_many otherMany, background] at returned
  split at oneReturned
  · cases oneReturned
  · split at returned
    · cases returned
    · have same := Except.ok.inj (oneReturned.trans returned.symm)
      simp at same

end Background

theorem blank_not_bar {tail : List UInt8} (blank : ∀ c ∈ tail, c ∈ whitespace) :
    (∀ c ∈ tail, charInSet c [bar] = false) ∧ backslash ∉ tail := by
  constructor
  · intro c member
    have apart : ∀ c ∈ whitespace, charInSet c [bar] = false := by
      simp [whitespace, charInSet, space, tab, newline, carriageReturn, bar]
    exact apart c (blank c member)
  · exact fun member => absurd (blank _ member) (by decide)

theorem lineCommand_plain {line : Line} {text : List UInt8}
    (prepared : trimmed (trimFront line.bytes whitespace) = text)
    (foreground : text.getLast? ≠ some ampersand) : lineCommand line = text := by
  simp [lineCommand, prepared, foreground]

theorem lineCommand_background {line : Line} {text : List UInt8}
    (prepared : trimmed (trimFront line.bytes whitespace) = text ++ [ampersand]) :
    lineCommand line = text := by
  simp [lineCommand, prepared]

section Law

variable (run : Builtin → List (Option (List UInt8)) → Nat → ParseResult) (below : UInt8)
  {whole line : Line} {before after : List UInt8}

theorem Bare.alone (bare : Bare line.bytes) :
    trimmed (trimFront line.bytes whitespace) = line.bytes := by
  have blank : ∀ c ∈ ([] : List UInt8), c ∈ whitespace := by simp
  simpa using bare.prepared blank blank

theorem getLast?_blank (text : List UInt8) (blank : ∀ c ∈ after, c ∈ whitespace)
    (some : after ≠ []) : (text ++ after).getLast? ≠ Option.some ampersand ∧
      ∀ below : UInt8, (text ++ after).getLast?.getD below ≠ ampersand := by
  obtain ⟨kept, cut, rfl⟩ := (List.eq_nil_or_concat after).resolve_left some
  rw [List.concat_eq_append] at blank ⊢
  have apart : cut ≠ ampersand := by
    rintro rfl
    exact absurd (blank ampersand (by simp)) (by decide)
  rw [← List.append_assoc, List.getLast?_concat]
  exact ⟨by simpa using apart, fun _ => apart⟩

theorem refusedAlike_iff {text last : List UInt8} {front : List (List UInt8)}
    (cut : pieces backslash (charInSet · [bar]) true text = front ++ [last]) :
    RefusedAlike text ↔ (front ++ [last]).length < maxArgs ∧
      ((∃ stage ∈ front, ¬ Accepted stage) ∨ ¬ Accepted last ∧ wordsOf last ≠ [] ∧
        (maxArgs ≤ (wordsOf last).length ∨
          (wordsOf (last ++ [ampersand])).length < maxArgs)) := by
  constructor
  · rintro ⟨other, piece, split, refused⟩
    obtain ⟨rfl, same⟩ := List.append_inj' (cut.symm.trans split) rfl
    obtain rfl := (List.cons.inj same).1
    exact refused
  · exact fun refused => ⟨front, last, cut, refused⟩

theorem ampersand_stages {text : List UInt8} (bare : Bare line.bytes)
    (ends : line.bytes = text ++ [ampersand])
    (prepared : trimmed (trimFront whole.bytes whitespace) = line.bytes ++ after)
    (blank : ∀ c ∈ after, c ∈ whitespace) (some : after ≠ []) :
    ∃ front last, pieces backslash (charInSet · [bar]) true text = front ++ [last] ∧
      stagesOf line = front ++ [last] ∧ stagesOf whole = front ++ [last ++ ampersand :: after] := by
  obtain ⟨front, last, cut, longer⟩ := pieces_append backslash (charInSet · [bar]) text
  refine ⟨front, last, cut, ?_, ?_⟩
  · rw [stagesOf, lineCommand_background (bare.alone.trans ends), cut]
  · obtain ⟨stays, plain⟩ := blank_not_bar blank
    rw [stagesOf, lineCommand_plain prepared (getLast?_blank line.bytes blank some).1, ends,
      List.append_assoc, List.singleton_append]
    apply longer
    · intro c member
      rcases List.mem_cons.mp member with rfl | member
      · decide
      · exact stays c member
    · intro member
      rcases List.mem_cons.mp member with same | member
      · exact absurd same (by decide)
      · exact plain member

-- More than one blank behind the '&' hides it: the two lines differ in their last stage.
theorem surrounding_background_iff {text : List UInt8} (bare : Bare line.bytes)
    (ends : line.bytes = text ++ [ampersand])
    (prepared : trimmed (trimFront whole.bytes whitespace) = line.bytes ++ after)
    (blank : ∀ c ∈ after, c ∈ whitespace) (some : after ≠ []) :
    Alike run below whole line ↔ StaysInBlocks line ∧ RefusedAlike text := by
  obtain ⟨front, last, cut, stages, wholeStages⟩ :=
    ampersand_stages bare ends prepared blank some
  have wholeGround : lineBackground below whole = false := by
    rw [lineBackground, prepared]
    exact decide_eq_false ((getLast?_blank line.bytes blank some).2 below)
  have lineGround : lineBackground below line = true := by
    rw [lineBackground, bare.alone, ends, List.getLast?_concat]
    rfl
  have words : wordsOf (last ++ ampersand :: after) = wordsOf (last ++ [ampersand]) := by
    have blanked := wordsOf_blank (Or.inr ⟨last, ampersand, rfl, by decide⟩) blank
    rwa [List.append_assoc] at blanked
  have length : (stagesOf whole).length = (stagesOf line).length := by
    rw [wholeStages, stages, List.length_append, List.length_append]
    rfl
  rw [refusedAlike_iff cut]
  by_cases few : (front ++ [last]).length < maxArgs
  next =>
    rw [and_iff_right few]
    have lineFew : (stagesOf line).length < maxArgs := stages ▸ few
    rcases accepted_cases front with accepted | ⟨early, stage, late, split, accepted, refused⟩
    next =>
      have taken : ¬ ∃ stage ∈ front, ¬ Accepted stage := by
        rintro ⟨stage, member, refused⟩
        exact refused (accepted stage member)
      rw [or_iff_right taken]
      exact alike_last_iff wholeStages stages wholeGround lineGround few accepted words
    next =>
      rw [split, List.append_assoc, List.cons_append] at stages wholeStages
      rw [alike_stopped wholeStages stages (length ▸ lineFew) lineFew accepted refused]
      exact (and_iff_left (Or.inl ⟨stage, by simp [split], refused⟩)).symm
  next =>
    have many : maxArgs ≤ (stagesOf line).length := stages ▸ Nat.not_lt.mp few
    exact iff_of_false (not_alike_many (length ▸ many) many wholeGround lineGround)
      fun refused => few refused.2.1

theorem surrounding_foreground (bare : Bare line.bytes)
    (foreground : line.bytes.getLast? ≠ some ampersand)
    (prepared : trimmed (trimFront whole.bytes whitespace) = line.bytes ++ after)
    (blank : ∀ c ∈ after, c ∈ whitespace) (some : after ≠ []) :
    Alike run below whole line ↔ StaysInBlocks line := by
  have alone := bare.alone
  obtain ⟨dark, ground⟩ := getLast?_blank line.bytes blank some
  obtain ⟨stays, plain⟩ := blank_not_bar blank
  obtain ⟨text, final, ends, -, other⟩ := bare.ends
  obtain ⟨front, last, cut, longer⟩ := pieces_append backslash (charInSet · [bar]) line.bytes
  obtain ⟨before, piece, split, last_eq⟩ := pieces_last backslash (charInSet · [bar]) text other
  rw [← ends, cut] at split
  obtain ⟨rfl, same⟩ := List.append_inj' split rfl
  obtain rfl := (List.cons.inj same).1
  have command := lineCommand_plain alone foreground
  have wholeCommand := lineCommand_plain prepared dark
  have stages : stagesOf line = front ++ [last] := by rw [stagesOf, command, cut]
  have wholeStages : stagesOf whole = front ++ [last ++ after] := by
    rw [stagesOf, wholeCommand]
    exact longer after stays plain
  have clean : 0 ∉ last := stagesOf_clean line last (by simp [stages])
  apply alike_last wholeStages stages
  · apply parseProcessBlock_words clean (clean_blank clean blank) (wordsOf_blank _ blank)
    rcases last_eq with empty | closed
    · exact Or.inl empty
    · obtain ⟨kept, rfl⟩ := List.getLast?_eq_some_iff.mp closed
      exact Or.inr ⟨kept, final, rfl, other⟩
  · have lineGround : line.bytes.getLast?.getD below ≠ ampersand := by
      rw [ends, List.getLast?_concat] at foreground ⊢
      simpa using foreground
    rw [lineBackground, lineBackground, prepared, alone]
    exact (decide_eq_false (ground below)).trans (decide_eq_false lineGround).symm
  · rw [command, wholeCommand, List.length_append]
    exact Nat.le_add_right _ _

/-- Whitespace around a line changes nothing, unless more than one blank follows a final '&' of a
line that is not refused alike without it. -/
theorem surrounding_whitespace_iff (bare : Bare line.bytes)
    (parts : whole.bytes = before ++ line.bytes ++ after)
    (blankBefore : ∀ c ∈ before, c ∈ whitespace) (blankAfter : ∀ c ∈ after, c ∈ whitespace) :
    Alike run below whole line ↔ StaysInBlocks line ∧
      ∀ text, line.bytes = text ++ [ampersand] → 1 < after.length → RefusedAlike text := by
  have prepared := bare.prepared blankBefore blankAfter
  rw [← parts] at prepared
  have blank : ∀ c ∈ after.dropLast, c ∈ whitespace := fun c member =>
    blankAfter c (List.dropLast_subset _ member)
  have length : after.dropLast.length = after.length - 1 := List.length_dropLast
  by_cases short : after.dropLast = []
  · rw [short, List.append_nil] at prepared
    rw [short, List.length_nil] at length
    rw [alike_of_eq (interpretLineBlock_congr (prepared.trans bare.alone.symm))]
    exact (and_iff_left fun text _ long => by omega).symm
  · have long : 1 < after.length := by
      have positive := List.length_pos_iff.mpr short
      omega
    by_cases background : line.bytes.getLast? = some ampersand
    · obtain ⟨text, ends⟩ := List.getLast?_eq_some_iff.mp background
      rw [surrounding_background_iff run below bare ends prepared blank short]
      apply and_congr_right'
      constructor
      · intro refused other same _
        rw [ends] at same
        exact (List.append_inj' same rfl).1 ▸ refused
      · intro refused
        exact refused text ends long
    · rw [surrounding_foreground run below bare background prepared blank short]
      refine (and_iff_left fun text ends => ?_).symm
      rw [ends, List.getLast?_concat] at background
      exact absurd rfl background

end Law

-- `sleep 1 &`
def sleeping : Line where
  bytes := [115, 108, 101, 101, 112, space, 49, space, ampersand]
  clean := by decide
  fits := by decide

def sleepingSpaced : Line where
  bytes := [space, 115, 108, 101, 101, 112, space, 49, space, ampersand, space, tab]
  clean := by decide
  fits := by decide

def sleepingIndented : Line where
  bytes := [tab, space, 115, 108, 101, 101, 112, space, 49, space, ampersand, newline]
  clean := by decide
  fits := by decide

theorem sleeping_bare : Bare sleeping.bytes where
  begins := ⟨115, _, rfl, by decide⟩
  ends := ⟨[115, 108, 101, 101, 112, space, 49, space], ampersand, rfl, by decide, by decide⟩

theorem surrounding_whitespace_indented :
    Alike (fun _ _ _ => .ok) 0 sleepingIndented sleeping := by
  have parts : sleepingIndented.bytes = [tab, space] ++ sleeping.bytes ++ [newline] := rfl
  have blankBefore : ∀ c ∈ [tab, space], c ∈ whitespace := by simp [whitespace]
  have blankAfter : ∀ c ∈ [newline], c ∈ whitespace := by simp [whitespace]
  have stays : StaysInBlocks sleeping :=
    (interpretLineBlock_returns (fun _ _ _ => .ok) 0 sleeping).mp ⟨_, rfl⟩
  apply (surrounding_whitespace_iff _ 0 sleeping_bare parts blankBefore blankAfter).mpr
  refine ⟨stays, fun text _ long => ?_⟩
  simp at long

theorem surrounding_whitespace_fails :
    ¬ ∀ (run : Builtin → List (Option (List UInt8)) → Nat → ParseResult) (below : UInt8)
      (whole line : Line) (before after : List UInt8), Bare line.bytes →
      whole.bytes = before ++ line.bytes ++ after → (∀ c ∈ before, c ∈ whitespace) →
      (∀ c ∈ after, c ∈ whitespace) → Alike run below whole line := by
  intro alike
  obtain ⟨outcome, spaced, plain⟩ := alike (fun _ _ _ => .ok) 0 sleepingSpaced sleeping [space]
    [space, tab] sleeping_bare rfl (by simp [whitespace]) (by simp [whitespace])
  have grounds : (interpretLineBlock (fun _ _ _ => .ok) 0 sleepingSpaced).toOption.bind
      (fun outcome => outcome.job.map (·.fg)) = some true := by decide
  rw [spaced, ← plain] at grounds
  revert grounds
  decide

-- Twenty-one bars and a '&': the last pointer goes behind the slots, and the call ends with NULL.
example : interpretLineBlock (fun _ _ _ => .ok) 0
    ⟨List.replicate 21 bar ++ [ampersand], by decide, by decide⟩ =
      .ok { job := none, handoff := none, result := .syntaxError } := by
  decide

end Akiso.Shell
