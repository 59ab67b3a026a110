import Akiso.Shell.Line

set_option autoImplicit false

namespace Akiso.Shell

variable (run : Builtin → List (Option (List UInt8)) → Nat → ParseResult) (below : UInt8)

def Blank (line : Line) : Prop :=
  ∀ c ∈ line.bytes, c ∈ whitespace

def Vacant (stage : List UInt8) : Prop :=
  wordsOf stage = [] ∨ maxArgs ≤ (wordsOf stage).length

def Parses (stage : List UInt8) (process : Process) : Prop :=
  parseProcess stage = .ok (.process process)

def firstArgument (job : Job) : Option (List UInt8) :=
  (job.pipeline.head?.bind fun process => process.arguments.head?).join

/-- A successful return accounts for every stage; a stage that is missing is reported. -/
structure NoSilentDrop (line : Line) : Prop where
  handed : ∀ outcome, interpretLine run below line = .ok outcome → outcome.result = .ok →
    Blank line ∨ ∃ job handoff, outcome.job = some job ∧ outcome.handoff = some handoff ∧
      List.Forall₂ Parses (stagesOf line) job.pipeline ∧
      ∀ command, handoff = .builtin command → firstArgument job = some command.name
  reported : ¬ Blank line →
    (∃ stage ∈ stagesOf line, Vacant stage) ∨ maxArgs ≤ (stagesOf line).length →
    ∃ outcome, interpretLine run below line = .ok outcome ∧ outcome.result = .syntaxError

def FirstError (stages : List (List UInt8)) : Prop :=
  ∃ before stage after, stages = before ++ stage :: after ∧
    (∀ other ∈ before, ∃ process, Parses other process) ∧ parseProcess stage = .ok .error

def Noticed (line : Line) : Prop :=
  Blank line ∨
  (maxArgs ≤ (stagesOf line).length ∧ ¬ Overruns (stagesOf line) ∧
    (trimmed (trimFront line.bytes whitespace)).getLast? = some ampersand) ∨
  ((stagesOf line).length < maxArgs ∧
    ((∀ stage ∈ stagesOf line, ¬ Vacant stage) ∨ FirstError (stagesOf line)))

theorem parseProcess_empty (stage : List UInt8) (clean : 0 ∉ stage) :
    parseProcess stage = .ok .empty ↔ Vacant stage := by
  rw [parseProcess_eq stage clean, Vacant]
  by_cases room : (wordsOf stage).length < maxArgs ∧ wordsOf stage ≠ []
  · have kept : ¬ (wordsOf stage = [] ∨ maxArgs ≤ (wordsOf stage).length) := by
      rintro (none | many)
      · exact room.2 none
      · omega
    rw [if_pos room, iff_false_right kept]
    intro empty
    simp only [bind, Except.bind] at empty
    repeat' split at empty
    all_goals simp at empty
  · have lost : wordsOf stage = [] ∨ maxArgs ≤ (wordsOf stage).length := by
      by_cases none : wordsOf stage = []
      · exact .inl none
      · exact .inr (by_contra fun few => room ⟨by omega, none⟩)
    simp [room, lost]

theorem parseStagesWith_stop (tokenizer : Tokenizer) (before after : List (List UInt8))
    (stage : List UInt8) (pipeline : List Process)
    (parsed : ∀ other ∈ before, ∃ process,
      parseProcessWith tokenizer other = .ok (.process process))
    (stops : ∀ process, parseProcessWith tokenizer stage ≠ .ok (.process process)) :
    parseStagesWith tokenizer (before ++ stage :: after) pipeline =
      parseProcessWith tokenizer stage >>= fun result =>
        .ok (.failed (if result = .error then .syntaxError else .ok)) := by
  induction before generalizing pipeline with
  | nil =>
    rw [List.nil_append, parseStagesWith]
    cases result : parseProcessWith tokenizer stage with
    | error stop => rfl
    | ok kind =>
      cases kind with
      | process process => exact absurd result (stops process)
      | empty => rfl
      | error => rfl
  | cons first rest ih =>
    obtain ⟨process, isProcess⟩ := parsed first (by simp)
    rw [List.cons_append, parseStagesWith, isProcess]
    exact ih _ fun other member => parsed other (by simp [member])

theorem parseStages_stop (before after : List (List UInt8)) (stage : List UInt8)
    (pipeline : List Process) (parsed : ∀ other ∈ before, ∃ process, Parses other process)
    (stops : ∀ process, parseProcess stage ≠ .ok (.process process)) :
    parseStages (before ++ stage :: after) pipeline =
      parseProcess stage >>= fun result =>
        .ok (.failed (if result = .error then .syntaxError else .ok)) :=
  parseStagesWith_stop parseTokens before after stage pipeline parsed stops

theorem stages_cases (stages : List (List UInt8)) :
    (∃ pipeline, List.Forall₂ Parses stages pipeline) ∨
      ∃ before stage after, stages = before ++ stage :: after ∧
        (∀ other ∈ before, ∃ process, Parses other process) ∧
        ∀ process, parseProcess stage ≠ .ok (.process process) := by
  induction stages with
  | nil => exact .inl ⟨[], .nil⟩
  | cons first rest ih =>
    by_cases isProcess : ∃ process, Parses first process
    · obtain ⟨process, isProcess⟩ := isProcess
      rcases ih with ⟨pipeline, parsed⟩ | ⟨before, stage, after, rfl, parsed, stops⟩
      · exact .inl ⟨process :: pipeline, .cons isProcess parsed⟩
      · refine .inr ⟨first :: before, stage, after, rfl, ?_, stops⟩
        intro other member
        rcases List.mem_cons.mp member with rfl | member
        · exact ⟨process, isProcess⟩
        · exact parsed other member
    · exact .inr ⟨[], first, rest, rfl, by simp, fun process same => isProcess ⟨process, same⟩⟩

theorem trimmed_ne_nil (text : List UInt8) (some : text ≠ []) : trimmed text ≠ [] := by
  unfold trimmed
  split
  next last _ =>
    by_cases long : 1 < text.length ∧ last ∈ whitespace
    · rw [if_pos long]
      intro none
      have := congrArg List.length none
      simp at this
      omega
    · rwa [if_neg long]
  next => exact some

theorem lineBackground_eq (line : Line) (text : ¬ Blank line) :
    lineBackground below line = true ↔
      (trimmed (trimFront line.bytes whitespace)).getLast? = some ampersand := by
  have front : trimFront line.bytes whitespace ≠ [] := by
    intro none
    refine text fun c member => ?_
    simpa using List.dropWhile_eq_nil_iff.mp none c member
  have filled := trimmed_ne_nil _ front
  simp [lineBackground, List.getLast?_eq_some_getLast filled]

theorem interpretLine_few (line : Line) (few : (stagesOf line).length < maxArgs) :
    interpretLine run below line = parseStages (stagesOf line) [] >>= fun
      | .failed result => .ok { job := none, handoff := none, result }
      | .pipeline pipeline => .ok (dispatch run (lineJob below line pipeline)) := by
  rw [interpretLine_eq, verdict_of_lt _ few]
  simp only [counted, bind, Except.bind, List.length_eq_zero_iff, stagesOf_ne_nil, if_false]
  cases parseStages (stagesOf line) [] with
  | error stop => rfl
  | ok result => cases result <;> rfl

theorem interpretLine_many (line : Line) (many : maxArgs ≤ (stagesOf line).length) :
    (Overruns (stagesOf line) ∧ interpretLine run below line = .error .overrun) ∨
      (¬ Overruns (stagesOf line) ∧ interpretLine run below line =
        .ok { job := none, handoff := none,
              result := if lineBackground below line then .syntaxError else .ok }) := by
  rw [interpretLine_eq, verdict, if_neg (Nat.not_lt.mpr many)]
  by_cases overruns : Overruns (stagesOf line)
  · exact .inl ⟨overruns, by rw [if_pos overruns]; rfl⟩
  · exact .inr ⟨overruns, by rw [if_neg overruns]; rfl⟩

theorem dispatch_ok (job : Job) (accepted : (dispatch run job).result = .ok) :
    ∃ handoff, (dispatch run job).handoff = some handoff ∧
      ∀ command, handoff = .builtin command → firstArgument job = some command.name := by
  cases pipeline : job.pipeline with
  | nil => exact ⟨.startJob, by simp [dispatch, pipeline], by simp⟩
  | cons first rest =>
    simp only [dispatch, pipeline] at accepted ⊢
    cases found :
      builtins.find? fun command => first.arguments.head? = some (some command.name) with
    | none => exact ⟨.startJob, by simp, by simp⟩
    | some command =>
      have named := List.find?_some found
      by_cases more : rest ≠ []
      · simp [found, more] at accepted
      · refine ⟨.builtin command, by simp [more], ?_⟩
        rintro other ⟨rfl⟩
        have named : first.arguments.head? = some (some command.name) := by simpa using named
        simp [firstArgument, pipeline, named]

theorem firstError_stop (stages before after : List (List UInt8)) (stage : List UInt8)
    (whole : stages = before ++ stage :: after)
    (parsed : ∀ other ∈ before, ∃ process, Parses other process)
    (stops : ∀ process, parseProcess stage ≠ .ok (.process process)) :
    FirstError stages ↔ parseProcess stage = .ok .error := by
  constructor
  · rintro ⟨first, other, rest, same, others, failure⟩
    have here := parseStages_stop before after stage [] parsed stops
    have there := parseStages_stop first rest other [] others (by simp [failure])
    rw [← whole, same, there, failure] at here
    cases result : parseProcess stage with
    | error stop => simp [result, bind, Except.bind] at here
    | ok kind => cases kind <;> simp_all [bind, Except.bind]
  · exact fun failure => ⟨before, stage, after, whole, parsed, failure⟩

theorem noSilentDrop_blank (line : Line) (blank : Blank line) : NoSilentDrop run below line :=
  { handed := fun _ _ _ => .inl blank
    reported := fun text => absurd blank text }

theorem noSilentDrop_many (line : Line) (text : ¬ Blank line)
    (many : maxArgs ≤ (stagesOf line).length) :
    NoSilentDrop run below line ↔ ¬ Overruns (stagesOf line) ∧
      (trimmed (trimFront line.bytes whitespace)).getLast? = some ampersand := by
  rw [← lineBackground_eq below line text]
  rcases interpretLine_many run below line many with ⟨overruns, stopped⟩ | ⟨inside, answer⟩
  · simp only [overruns, not_true_eq_false, false_and, iff_false]
    intro law
    obtain ⟨outcome, returned, -⟩ := law.reported text (.inr many)
    simp [stopped] at returned
  · cases background : lineBackground below line
    · simp only [Bool.false_eq_true, and_false, iff_false]
      intro law
      rcases law.handed _ answer (by simp [background]) with blank | ⟨job, -, built, -⟩
      · exact text blank
      · simp at built
    · simp only [inside, not_false_eq_true, and_self, iff_true]
      rw [background] at answer
      refine ⟨fun outcome returned accepted => ?_, fun _ _ => ⟨_, answer, rfl⟩⟩
      rw [answer, Except.ok.injEq] at returned
      simp [← returned] at accepted

theorem not_vacant_of_parsed (line : Line) (pipeline : List Process)
    (parsed : List.Forall₂ Parses (stagesOf line) pipeline) :
    ∀ stage ∈ stagesOf line, ¬ Vacant stage := by
  intro stage inside vacant
  obtain ⟨index, bound, rfl⟩ := List.mem_iff_getElem.mp inside
  have isProcess := parsed.get bound (parsed.length_eq ▸ bound)
  have empty := (parseProcess_empty _ (stagesOf_clean line _ inside)).mpr vacant
  simp [Parses, empty] at isProcess

theorem noSilentDrop_parsed (line : Line) (pipeline : List Process)
    (few : (stagesOf line).length < maxArgs)
    (parsed : List.Forall₂ Parses (stagesOf line) pipeline) : NoSilentDrop run below line := by
  have answer := interpretLine_of_parsed run below line pipeline few parsed
  refine ⟨fun outcome returned accepted => ?_, fun _ missing => ?_⟩
  · rw [answer, Except.ok.injEq] at returned
    subst returned
    obtain ⟨handoff, handed, named⟩ := dispatch_ok run _ accepted
    exact .inr ⟨_, handoff, dispatch_job _ _, handed, parsed, named⟩
  · rcases missing with ⟨stage, inside, vacant⟩ | many
    · exact absurd vacant (not_vacant_of_parsed line pipeline parsed stage inside)
    · omega

theorem noSilentDrop_stop (line : Line) (text : ¬ Blank line)
    (few : (stagesOf line).length < maxArgs) (before after : List (List UInt8)) (stage : List UInt8)
    (whole : stagesOf line = before ++ stage :: after)
    (parsed : ∀ other ∈ before, ∃ process, Parses other process)
    (stops : ∀ process, parseProcess stage ≠ .ok (.process process)) :
    NoSilentDrop run below line ↔
      (∀ stage ∈ stagesOf line, ¬ Vacant stage) ∨ FirstError (stagesOf line) := by
  have inside : stage ∈ stagesOf line := by simp [whole]
  have loop := parseStages_stop before after stage [] parsed stops
  rw [← whole] at loop
  have answer := interpretLine_few run below line few
  rw [loop] at answer
  rw [firstError_stop _ before after stage whole parsed stops]
  cases result : parseProcess stage with
  | error stop =>
    -- A redirect token overran its slots: nothing is returned at all.
    rw [result] at answer
    have silent (outcome : LineOutcome) : interpretLine run below line ≠ .ok outcome := by
      simp [answer, bind, Except.bind]
    constructor
    · intro law
      refine .inl fun stage inside vacant => ?_
      obtain ⟨outcome, returned, -⟩ := law.reported text (.inl ⟨stage, inside, vacant⟩)
      exact silent outcome returned
    · rintro (filled | failure)
      · refine ⟨fun outcome returned => absurd returned (silent outcome), fun _ missing => ?_⟩
        rcases missing with ⟨stage, inside, vacant⟩ | many
        · exact absurd vacant (filled stage inside)
        · omega
      · simp at failure
  | ok kind =>
    rw [result] at answer
    cases kind with
    | process process => exact absurd result (stops process)
    | empty =>
      have vacant := (parseProcess_empty stage (stagesOf_clean line stage inside)).mp result
      constructor
      · intro law
        rcases law.handed _ answer rfl with blank | ⟨job, -, built, -⟩
        · exact absurd blank text
        · simp at built
      · rintro (filled | failure)
        · exact absurd vacant (filled stage inside)
        · simp at failure
    | error =>
      simp only [or_true, iff_true]
      refine ⟨fun outcome returned accepted => ?_, fun _ _ => ⟨_, answer, rfl⟩⟩
      have same := Except.ok.inj (answer.symm.trans returned)
      simp [← same] at accepted

theorem noSilentDrop_iff (line : Line) : NoSilentDrop run below line ↔ Noticed line := by
  by_cases text : Blank line
  · exact iff_of_true (noSilentDrop_blank run below line text) (.inl text)
  by_cases few : (stagesOf line).length < maxArgs
  · simp only [Noticed, text, few, Nat.not_le.mpr few, true_and, false_and, false_or]
    rcases stages_cases (stagesOf line) with
      ⟨pipeline, parsed⟩ | ⟨before, stage, after, whole, parsed, stops⟩
    · refine iff_of_true (noSilentDrop_parsed run below line pipeline few parsed) (.inl ?_)
      exact not_vacant_of_parsed line pipeline parsed
    · exact noSilentDrop_stop run below line text few before after stage whole parsed stops
  · rw [noSilentDrop_many run below line text (Nat.not_lt.mp few)]
    simp [Noticed, text, few, Nat.not_lt.mp few]

theorem noSilentDrop_fails :
    ∃ (run : Builtin → List (Option (List UInt8)) → Nat → ParseResult) (below : UInt8)
      (line : Line), ¬ NoSilentDrop run below line := by
  refine ⟨fun _ _ _ => .ok, 0, ⟨[ampersand], by decide, by decide⟩, fun law => ?_⟩
  have answer : interpretLine (fun _ _ _ => .ok) 0 ⟨[ampersand], by decide, by decide⟩ =
      .ok { job := none, handoff := none, result := .ok } := by decide
  rcases law.handed _ answer rfl with blank | ⟨job, -, built, -⟩
  · exact absurd (blank ampersand (by simp)) (by decide)
  · simp at built

end Akiso.Shell
