import Akiso.Shell.Quoting

set_option autoImplicit false

namespace Akiso.Shell

open CString Escape

structure Pipeline where
  commands : List (List (List UInt8))
  command : commands ≠ []
  few : commands.length < maxArgs
  word : ∀ words ∈ commands, words ≠ []
  fewWords : ∀ words ∈ commands, words.length < maxArgs
  filled : ∀ words ∈ commands, ∀ word ∈ words, word ≠ []
  letters : ∀ words ∈ commands, ∀ word ∈ words, ∀ c ∈ word,
    c ≠ 0 ∧ c ≠ less ∧ c ≠ greater ∧ c ≠ ampersand

theorem mem_quoteWord (word : List UInt8) (c : UInt8) (member : c ∈ quoteWord word) :
    c = backslash ∨ c ∈ word := by
  obtain ⟨letter, inside, found⟩ := List.mem_flatMap.mp member
  cases kind : special letter <;> simp_all
  rcases found with rfl | rfl <;> simp [inside]

theorem mem_quoteLine (commands : List (List (List UInt8))) (c : UInt8)
    (member : c ∈ quoteLine commands) :
    c = bar ∨ c = space ∨ c = backslash ∨ ∃ words ∈ commands, ∃ word ∈ words, c ∈ word := by
  rcases mem_intercalate _ _ _ member with same | ⟨segment, inside, found⟩
  · exact .inl same
  obtain ⟨words, isCommand, rfl⟩ := List.mem_map.mp inside
  rcases mem_intercalate _ _ _ found with same | ⟨segment, inside, found⟩
  · exact .inr (.inl same)
  obtain ⟨word, isWord, rfl⟩ := List.mem_map.mp inside
  rcases mem_quoteWord word c found with same | letter
  · exact .inr (.inr (.inl same))
  · exact .inr (.inr (.inr ⟨words, isCommand, word, isWord, letter⟩))

namespace Pipeline

variable (pipeline : Pipeline)

theorem quoted_letters (c : UInt8) (member : c ∈ quoteLine pipeline.commands) :
    c ≠ 0 ∧ c ≠ less ∧ c ≠ greater ∧ c ≠ ampersand := by
  rcases mem_quoteLine pipeline.commands c member with
    rfl | rfl | rfl | ⟨words, isCommand, word, isWord, letter⟩
  · decide
  · decide
  · decide
  · exact pipeline.letters words isCommand word isWord c letter

def line (room : (quoteLine pipeline.commands).length < buffSize) : Line :=
  { bytes := quoteLine pipeline.commands
    clean := fun member => (pipeline.quoted_letters 0 member).1 rfl
    fits := room }

def last? : Option UInt8 :=
  pipeline.commands.flatten.flatten.getLast?

end Pipeline

theorem intercalate_concat {B : Type} (separator : List B) (segments : List (List B))
    (segment : List B) :
    ∃ front, separator.intercalate (segments ++ [segment]) = front ++ segment := by
  induction segments with
  | nil => exact ⟨[], by simp⟩
  | cons first rest ih =>
    obtain ⟨front, rest_eq⟩ := ih
    refine ⟨first ++ separator ++ front, ?_⟩
    rw [List.cons_append, List.intercalate_cons_of_ne_nil (by simp), rest_eq]
    simp

theorem getLast?_flatten_concat {B : Type} (front : List (List B)) (segment : List B)
    (filled : segment ≠ []) : (front ++ [segment]).flatten.getLast? = segment.getLast? := by
  obtain ⟨first, last, rfl⟩ : ∃ first last, segment = first ++ [last] :=
    ⟨segment.dropLast, segment.getLast filled, (List.dropLast_append_getLast filled).symm⟩
  simp [← List.append_assoc]

theorem commandUnits_concat (words : List (List UInt8)) (nonempty : words ≠ [])
    (filled : ∀ word ∈ words, word ≠ []) :
    ∃ front c, commandUnits words = front ++ [unitOf c] ∧ words.flatten.getLast? = some c := by
  obtain ⟨first, word, rfl⟩ := (List.eq_nil_or_concat words).resolve_left nonempty
  rw [List.concat_eq_append] at filled ⊢
  have wordFilled := filled word (by simp)
  obtain ⟨start, c, rfl⟩ := (List.eq_nil_or_concat word).resolve_left wordFilled
  obtain ⟨front, whole⟩ := intercalate_concat [Item.plain space]
    (first.map fun word => word.map unitOf) ((start.concat c).map unitOf)
  refine ⟨front ++ start.map unitOf, c, ?_, ?_⟩
  · simpa [commandUnits] using whole
  · rw [getLast?_flatten_concat _ _ wordFilled]
    simp

namespace Pipeline

variable (pipeline : Pipeline)

theorem lineUnits_concat :
    ∃ front c, lineUnits pipeline.commands = front ++ [unitOf c] ∧
      pipeline.last? = some c := by
  obtain ⟨first, words, whole⟩ :=
    (List.eq_nil_or_concat pipeline.commands).resolve_left pipeline.command
  rw [List.concat_eq_append] at whole
  have isCommand : words ∈ pipeline.commands := by simp [whole]
  have nonempty := pipeline.word words isCommand
  have filled := pipeline.filled words isCommand
  obtain ⟨start, c, units, last⟩ := commandUnits_concat words nonempty filled
  obtain ⟨front, joined⟩ := intercalate_concat [Item.plain bar]
    (first.map commandUnits) (commandUnits words)
  refine ⟨front ++ start, c, ?_, ?_⟩
  · rw [lineUnits, whole, List.map_append, List.map_singleton, joined, units]
    simp
  · rw [last?, whole, List.flatten_append, List.flatten_singleton, List.flatten_append,
      List.getLast?_append, last]
    rfl

theorem lineUnits_cons :
    ∃ c rest, lineUnits pipeline.commands = unitOf c :: rest := by
  obtain ⟨words, commands, whole⟩ := List.exists_cons_of_ne_nil pipeline.command
  have isCommand : words ∈ pipeline.commands := by simp [whole]
  obtain ⟨word, later, rfl⟩ := List.exists_cons_of_ne_nil (pipeline.word words isCommand)
  obtain ⟨c, letters, rfl⟩ :=
    List.exists_cons_of_ne_nil (pipeline.filled _ isCommand word (by simp))
  refine ⟨c, ?rest, ?units⟩
  case units =>
    rw [lineUnits, whole, List.map_cons, commandUnits, List.map_cons, List.map_cons,
      List.intercalate_cons_cons_left, List.intercalate_cons_cons_left]

theorem trimFront_line (room : (quoteLine pipeline.commands).length < buffSize) :
    trimFront (pipeline.line room).bytes whitespace = quoteLine pipeline.commands := by
  obtain ⟨c, rest, units⟩ := pipeline.lineUnits_cons
  change trimFront (quoteLine pipeline.commands) whitespace = _
  rw [quoteLine_eq, units, List.flatMap_cons, unitOf_text]
  by_cases kind : special c = true
  · simp [kind, trimFront, backslash_not_whitespace]
  · have text : c ∉ whitespace := by
      intro blank
      simp [special, blank] at kind
    simp [kind, trimFront, text]

-- The preparation of a quoted line drops its last character when that is whitespace.
theorem lineCommand_line (room : (quoteLine pipeline.commands).length < buffSize) :
    ∃ front c, pipeline.last? = some c ∧
      if c ∈ whitespace then lineCommand (pipeline.line room) = front ++ [backslash]
      else lineCommand (pipeline.line room) = quoteLine pipeline.commands := by
  obtain ⟨front, c, units, last⟩ := pipeline.lineUnits_concat
  refine ⟨front.flatMap (Item.text backslash), c, last, ?_⟩
  have text := quoteLine_eq pipeline.commands
  rw [units, List.flatMap_append, List.flatMap_singleton, unitOf_text] at text
  rw [lineCommand, trimFront_line]
  by_cases blank : c ∈ whitespace
  · have kind : special c = true := by simp [special, blank]
    have other : backslash ≠ ampersand := by decide
    simp [blank, text, kind, trimmed, other]
  · have letter : c ≠ ampersand := by
      have member : c ∈ quoteLine pipeline.commands := by
        rw [text]
        cases special c <;> simp
      exact (pipeline.quoted_letters c member).2.2.2
    have lastChar : (quoteLine pipeline.commands).getLast? = some c := by
      rw [text]
      cases special c <;> simp [List.getLast?_append]
    simp [blank, trimmed, lastChar, letter]

end Pipeline

theorem map_eq_map {B C D : Type} (f : B → D) (g : C → D) (first : List B) (second : List C)
    (same : List.Forall₂ (fun b c => f b = g c) first second) : first.map f = second.map g := by
  induction same with
  | nil => rfl
  | cons head _ ih => simp [head, ih]

theorem built_iff (run : Builtin → List (Option (List UInt8)) → Nat → ParseResult)
    (below : UInt8) (line : Line) (pipeline : Pipeline)
    (plain : ∀ c ∈ line.bytes, c ≠ greater ∧ c ≠ less) :
    (∃ outcome job, interpretLine run below line = .ok outcome ∧ outcome.job = some job ∧
      job.pipeline.map Process.words = pipeline.commands.map fun words => words.map some) ↔
    (stagesOf line).map wordsOf = pipeline.commands := by
  have stagePlain : ∀ stage ∈ stagesOf line, greater ∉ stage ∧ less ∉ stage := by
    intro stage inside
    constructor <;> intro member <;>
      rcases mem_pieces _ _ _ _ stage _ inside member with found | found
    · exact (plain _ (lineCommand_subset line found)).1 rfl
    · contradiction
    · exact (plain _ (lineCommand_subset line found)).2 rfl
    · contradiction
  have parse (stage : List UInt8) (inside : stage ∈ stagesOf line) :=
    parseProcess_plain stage (stagesOf_clean line stage inside) (stagePlain stage inside).1
      (stagePlain stage inside).2
  constructor
  · rintro ⟨outcome, job, returned, built, same⟩
    obtain ⟨-, parsed, -, -⟩ := interpretLine_built run below line outcome job returned built
    have words : ((stagesOf line).map wordsOf).map (List.map some) =
        job.pipeline.map Process.words := by
      rw [List.map_map]
      apply map_eq_map
      refine ((List.forall₂_and_left _ _).mpr ⟨parse, parsed⟩).imp ?_
      rintro stage process ⟨known, result⟩
      rw [known] at result
      split at result
      · obtain rfl : _ = process := by simpa using result
        simp [Process.words]
      · simp at result
    rw [same] at words
    have wrap : Function.Injective (some : List UInt8 → Option (List UInt8)) :=
      fun _ _ => Option.some.inj
    exact List.map_injective_iff.mpr (List.map_injective_iff.mpr wrap) words
  · intro same
    have count : (stagesOf line).length = pipeline.commands.length := by simp [← same]
    have room (stage : List UInt8) (inside : stage ∈ stagesOf line) :
        (wordsOf stage).length < maxArgs ∧ wordsOf stage ≠ [] := by
      have isCommand : wordsOf stage ∈ pipeline.commands := by
        rw [← same]
        exact List.mem_map_of_mem inside
      exact ⟨pipeline.fewWords _ isCommand, pipeline.word _ isCommand⟩
    let process (stage : List UInt8) : Process := { emptyProcess with
      arguments := (wordsOf stage).map some ++ [none], argc := (wordsOf stage).length }
    have parsed : List.Forall₂ (fun stage process => parseProcess stage = .ok (.process process))
        (stagesOf line) ((stagesOf line).map process) := by
      rw [List.forall₂_map_right_iff, List.forall₂_same]
      intro stage inside
      rw [parse stage inside, if_pos (room stage inside)]
    refine ⟨_, lineJob below line ((stagesOf line).map process),
      interpretLine_of_parsed run below line _ (count ▸ pipeline.few) parsed,
      dispatch_job _ _, ?_⟩
    rw [← same]
    simp [lineJob, Process.words, process]

def QuotingLaw (run : Builtin → List (Option (List UInt8)) → Nat → ParseResult) (below : UInt8)
    (pipeline : Pipeline) (room : (quoteLine pipeline.commands).length < buffSize) : Prop :=
  ∃ outcome job, interpretLine run below (pipeline.line room) = .ok outcome ∧
    outcome.job = some job ∧
    job.pipeline.map Process.words = pipeline.commands.map fun words => words.map some

def Unpaired (word : List UInt8) : Prop :=
  word.IsChain fun first second =>
    first = backslash → second ≠ backslash ∧ second ∉ whitespace

instance : DecidablePred Unpaired := fun word =>
  inferInstanceAs (Decidable (List.IsChain
    (fun first second => first = backslash → second ≠ backslash ∧ second ∉ whitespace) word))

structure Pipeline.Survives (pipeline : Pipeline) : Prop where
  unpaired : ∀ words ∈ pipeline.commands, ∀ word ∈ words, Unpaired word
  ending : ∀ words ∈ pipeline.commands, ∀ word ∈ words.dropLast, word.getLast? ≠ some backslash
  untrimmed : ∀ c ∈ pipeline.last?, c ∉ whitespace

theorem isChain_word (word : List UInt8) :
    (word.map some).IsChain Follows ↔ Unpaired word := by
  rw [Unpaired, List.isChain_map]
  simp [Follows]

theorem isChain_stream (words : List (List UInt8)) :
    (stream words).IsChain Follows ↔
      (∀ word ∈ words, Unpaired word) ∧
        ∀ word ∈ words.dropLast, word.getLast? ≠ some backslash := by
  induction words with
  | nil => simp [stream]
  | cons word rest ih =>
    cases rest with
    | nil => simp [stream, isChain_word]
    | cons other rest =>
      have split : stream (word :: other :: rest) =
          word.map some ++ none :: stream (other :: rest) := by
        simp [stream, List.intercalate_cons_cons]
      have ends : (∀ x ∈ (word.map some).getLast?, ∀ y ∈ (none :: stream (other :: rest)).head?,
          Follows x y) ↔ word.getLast? ≠ some backslash := by
        cases last : word.getLast? <;> simp [last, Follows]
      have open_ : ∀ y ∈ (stream (other :: rest)).head?, Follows none y := by simp [Follows]
      rw [split, List.isChain_append, List.isChain_cons, ih, isChain_word, ends]
      simp only [List.mem_cons, List.dropLast_cons_cons, forall_eq_or_imp]
      tauto

theorem last_of_command (pipeline : Pipeline) (line : Line) (front : List UInt8)
    (command : lineCommand line = front ++ [backslash])
    (same : (stagesOf line).map wordsOf = pipeline.commands) :
    pipeline.last? = some backslash := by
  have whole : (stagesOf line).flatten.getLast? = some backslash := by
    rw [stagesOf, command]
    exact getLast_pieces_escape backslash _ true front
  obtain ⟨first, stage, stages⟩ :=
    (List.eq_nil_or_concat (stagesOf line)).resolve_left (stagesOf_ne_nil line)
  rw [List.concat_eq_append] at stages
  rw [stages] at whole same
  have isCommand : wordsOf stage ∈ pipeline.commands := by simp [← same]
  have filled : stage ≠ [] := by
    rintro rfl
    exact pipeline.word _ isCommand rfl
  rw [getLast?_flatten_concat _ _ filled] at whole
  obtain ⟨start, rfl⟩ := List.getLast?_eq_some_iff.mp whole
  have last := getLast_pieces_escape backslash (charInSet · whitespace) false start
  rw [Pipeline.last?, ← same, List.map_append, List.flatten_append, List.flatten_append,
    List.map_singleton, List.flatten_singleton, List.getLast?_append, wordsOf, last]
  rfl

theorem quotingLaw_iff (run : Builtin → List (Option (List UInt8)) → Nat → ParseResult)
    (below : UInt8) (pipeline : Pipeline)
    (room : (quoteLine pipeline.commands).length < buffSize) :
    QuotingLaw run below pipeline room ↔ pipeline.Survives := by
  have plain : ∀ c ∈ (pipeline.line room).bytes, c ≠ greater ∧ c ≠ less := fun c member =>
    ⟨(pipeline.quoted_letters c member).2.2.1, (pipeline.quoted_letters c member).2.1⟩
  rw [QuotingLaw, built_iff run below (pipeline.line room) pipeline plain]
  obtain ⟨front, c, last, command⟩ := pipeline.lineCommand_line room
  by_cases blank : c ∈ whitespace
  · -- Trimming took the last character and left its backslash to end the last word.
    rw [if_pos blank] at command
    constructor
    · intro same
      have escape := last_of_command pipeline _ front command same
      rw [last, Option.some.injEq] at escape
      exact absurd (escape ▸ blank) backslash_not_whitespace
    · intro survives
      exact absurd blank (survives.untrimmed c last)
  · rw [if_neg blank] at command
    have stages : stagesOf (pipeline.line room) = pipeline.commands.map onceCommand := by
      rw [stagesOf, command, pieces_quoteLine pipeline.commands pipeline.command]
    have words (words : List (List UInt8)) (isCommand : words ∈ pipeline.commands) :
        wordsOf (onceCommand words) = words ↔ (∀ word ∈ words, Unpaired word) ∧
          ∀ word ∈ words.dropLast, word.getLast? ≠ some backslash := by
      rw [wordsOf_onceCommand words (pipeline.filled words isCommand), isChain_stream]
    have untrimmed : ∀ d ∈ pipeline.last?, d ∉ whitespace := by simp [last, blank]
    have each : (pipeline.commands.map onceCommand).map wordsOf = pipeline.commands ↔
        ∀ words ∈ pipeline.commands, wordsOf (onceCommand words) = words := by
      rw [List.map_map]
      constructor
      · intro same list isCommand
        simpa using List.map_inj_left.mp (same.trans (List.map_id _).symm) list isCommand
      · intro same
        exact (List.map_congr_left same).trans (List.map_id _)
    rw [stages, each]
    constructor
    · intro same
      exact ⟨fun list isCommand => ((words list isCommand).mp (same list isCommand)).1,
        fun list isCommand => ((words list isCommand).mp (same list isCommand)).2, untrimmed⟩
    · intro survives list isCommand
      exact (words list isCommand).mpr
        ⟨survives.unpaired list isCommand, survives.ending list isCommand⟩

def escapedWords : Pipeline :=
  { commands := [[[97], [98, space, 99]], [[bar, backslash, 100]]]
    command := by decide
    few := by decide
    word := by decide
    fewWords := by decide
    filled := by decide
    letters := by decide +kernel }

theorem quotingLaw_escapedWords :
    QuotingLaw (fun _ _ _ => .ok) 0 escapedWords (by decide) :=
  (quotingLaw_iff (fun _ _ _ => .ok) 0 escapedWords (by decide)).mpr
    ⟨by decide, by decide, by decide +kernel⟩

def doubleBackslash : Pipeline :=
  { commands := [[[backslash, backslash]]]
    command := by decide
    few := by decide
    word := by decide
    fewWords := by decide
    filled := by decide
    letters := by decide +kernel }

theorem quotingLaw_fails :
    ∃ (run : Builtin → List (Option (List UInt8)) → Nat → ParseResult) (below : UInt8)
      (pipeline : Pipeline) (room : (quoteLine pipeline.commands).length < buffSize),
      ¬ QuotingLaw run below pipeline room := by
  refine ⟨fun _ _ _ => .ok, 0, doubleBackslash, by decide, ?_⟩
  rintro ⟨outcome, job, returned, built, same⟩
  have run : interpretLine (fun _ _ _ => .ok) 0 (doubleBackslash.line (by decide)) =
      .ok { job := some (lineJob 0 (doubleBackslash.line (by decide))
              [{ emptyProcess with arguments := [some [backslash], none], argc := 1 }])
            handoff := some .startJob
            result := .ok } := by decide
  rw [run, Except.ok.injEq] at returned
  subst returned
  obtain rfl := Option.some.inj built
  exact absurd same (by decide)

end Akiso.Shell
