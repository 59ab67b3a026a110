import Akiso.Shell.Parser
import Mathlib.Data.List.Forall2

set_option autoImplicit false

namespace Akiso.Shell

open CString Escape

-- What trim_end leaves of a string: it looks at the last character only.
def trimmed (text : List UInt8) : List UInt8 :=
  match text.getLast? with
  | some last => if 1 < text.length ∧ last ∈ whitespace then text.dropLast else text
  | none => text

def lineCommand (line : Line) : List UInt8 :=
  let text := trimmed (trimFront line.bytes whitespace)
  if text.getLast? = some ampersand then text.dropLast else text

def lineBackground (below : UInt8) (line : Line) : Bool :=
  (trimmed (trimFront line.bytes whitespace)).getLast?.getD below = ampersand

def stagesOf (line : Line) : List (List UInt8) :=
  pieces backslash (charInSet · [bar]) true (lineCommand line)

def wordsOf (stage : List UInt8) : List (List UInt8) :=
  pieces backslash (charInSet · whitespace) false stage

theorem nul_not_whitespace : charInSet 0 whitespace = false := by decide

theorem trimFront_clean (line : Line) : 0 ∉ trimFront line.bytes whitespace := fun member =>
  line.clean (List.dropWhile_sublist _ |>.subset member)

theorem trimFront_fits (line : Line) :
    (trimFront line.bytes whitespace).length < buffSize :=
  Nat.lt_of_le_of_lt (List.dropWhile_sublist _).length_le line.fits

theorem trimmed_clean (text : List UInt8) (clean : 0 ∉ text) : 0 ∉ trimmed text := by
  unfold trimmed
  split
  next =>
    split
    · exact fun member => clean (List.dropLast_subset _ member)
    · exact clean
  next => exact clean

theorem strlen_append_nul (text spare : List UInt8) (clean : 0 ∉ text) :
    strlen (text ++ 0 :: spare) = text.length := by
  rw [strlen, cstring_append_nul text spare clean]

theorem trimEnd_append_nul (text spare : List UInt8) (clean : 0 ∉ text) :
    ∃ rest, trimEnd (text ++ 0 :: spare) whitespace = trimmed text ++ 0 :: rest := by
  rw [trimEnd, strlen_append_nul text spare clean]
  rcases List.eq_nil_or_concat text with rfl | ⟨front, last, rfl⟩
  · exact ⟨spare, by simp [trimmed]⟩
  · rw [List.concat_eq_append, List.append_assoc]
    by_cases short : front = []
    · exact ⟨spare, by simp [short, trimmed]⟩
    · have long : 0 < front.length := List.length_pos_iff.mpr short
      have start : (front ++ [last]).length - 1 = front.length := by simp
      simp only [start, long, if_true, List.take_left, List.drop_left, List.singleton_append,
        trimEndFrom, nul_not_whitespace, trimmed, List.getLast?_concat, List.dropLast_concat]
      by_cases blank : last ∈ whitespace
      · exact ⟨0 :: spare, by simp [blank, long]⟩
      · exact ⟨spare, by simp [blank]⟩

theorem trimLine_eq (line : Line) :
    ∃ rest, trimLine line = trimmed (trimFront line.bytes whitespace) ++ 0 :: rest := by
  have fits := trimFront_fits line
  obtain ⟨spare, room⟩ : ∃ spare,
      buffSize - (trimFront line.bytes whitespace).length = spare + 1 :=
    ⟨buffSize - (trimFront line.bytes whitespace).length - 1, by omega⟩
  rw [trimLine, strncpy, List.take_of_length_le (by omega), room, List.replicate_succ]
  exact trimEnd_append_nul _ _ (trimFront_clean line)

theorem takeBackground_eq (below : UInt8) (line : Line) :
    cstring (takeBackground below (trimLine line)).1 = lineCommand line ∧
      (takeBackground below (trimLine line)).2 = lineBackground below line := by
  obtain ⟨rest, memory⟩ := trimLine_eq line
  have clean := trimmed_clean _ (trimFront_clean line)
  rw [memory, lineCommand, lineBackground, takeBackground, strlen_append_nul _ rest clean]
  generalize trimmed (trimFront line.bytes whitespace) = text at clean ⊢
  rcases List.eq_nil_or_concat text with rfl | ⟨front, last, rfl⟩
  · by_cases low : below = ampersand <;> simp [low, cstring]
  · rw [List.concat_eq_append] at clean ⊢
    have frontClean : 0 ∉ front := fun member => clean (by simp [member])
    by_cases background : last = ampersand
    · have string := cstring_append_nul front (0 :: rest) frontClean
      simp [background, List.set_append_right, string]
    · have string := cstring_append_nul (front ++ [last]) rest clean
      simp only [List.append_assoc, List.singleton_append] at string
      simp [background, string]

theorem lineCommand_clean (line : Line) : 0 ∉ lineCommand line := by
  have clean := trimmed_clean _ (trimFront_clean line)
  unfold lineCommand
  dsimp only
  split
  · exact fun member => clean (List.dropLast_subset _ member)
  · exact clean

theorem interpretLineWith_eq (tokenizer : Tokenizer)
    (run : Builtin → List (Option (List UInt8)) → Nat → ParseResult) (below : UInt8)
    (line : Line) :
    interpretLineWith tokenizer run below line = (do
      let stages ← counted (tokenizer (lineCommand line) [bar] true)
      if stages.length = 0 then
        .ok { job := none, handoff := none,
              result := if lineBackground below line then .syntaxError else .ok }
      else
        match ← parseStagesWith tokenizer stages [] with
        | .failed result => .ok { job := none, handoff := none, result }
        | .pipeline pipeline =>
          .ok (dispatch run { emptyJob with
            fg := !lineBackground below line, pipeline, pipelineSize := stages.length })) := by
  obtain ⟨command, background⟩ := takeBackground_eq below line
  rw [← command, ← background]
  rfl

theorem interpretLine_eq (run : Builtin → List (Option (List UInt8)) → Nat → ParseResult)
    (below : UInt8) (line : Line) :
    interpretLine run below line = (do
      let stages ← counted (verdict (stagesOf line))
      if stages.length = 0 then
        .ok { job := none, handoff := none,
              result := if lineBackground below line then .syntaxError else .ok }
      else
        match ← parseStages stages [] with
        | .failed result => .ok { job := none, handoff := none, result }
        | .pipeline pipeline =>
          .ok (dispatch run { emptyJob with
            fg := !lineBackground below line, pipeline, pipelineSize := stages.length })) := by
  rw [interpretLine, interpretLineWith_eq,
    parseTokens_eq _ _ _ (lineCommand_clean line) (by decide)]
  rfl

theorem wordsOf_filled (stage : List UInt8) : ∀ word ∈ wordsOf stage, word ≠ [] :=
  split_filled _ _ _

-- Words are never empty, so the word limit is always noticed inside the argument slots.
theorem counted_wordsOf (stage : List UInt8) :
    counted (verdict (wordsOf stage)) =
      .ok (if (wordsOf stage).length < maxArgs then wordsOf stage else []) := by
  by_cases few : (wordsOf stage).length < maxArgs
  · simp [verdict, few, counted]
  · have filled : (wordsOf stage)[maxArgs]? ≠ some [] := by
      intro blank
      exact wordsOf_filled stage [] (List.mem_of_getElem? blank) rfl
    simp [verdict, Overruns, few, filled, counted]

theorem parseProcessWith_eq {tokenizer : Tokenizer} {stage : List UInt8}
    (tokens : counted (tokenizer stage whitespace false) =
      .ok (if (wordsOf stage).length < maxArgs then wordsOf stage else [])) :
    parseProcessWith tokenizer stage =
      if (wordsOf stage).length < maxArgs ∧ wordsOf stage ≠ [] then do
        let process := { emptyProcess with arguments := (wordsOf stage).map some ++ [none] }
        match ← scanTokensWith tokenizer 0 (wordsOf stage) { process, redirectFound := false } with
        | none => .ok .error
        | some scan =>
          if scan.redirectFound then .ok (.process scan.process)
          else .ok (.process { scan.process with argc := (wordsOf stage).length })
      else .ok .empty := by
  rw [parseProcessWith, tokens]
  by_cases few : (wordsOf stage).length < maxArgs
  · by_cases blank : wordsOf stage = []
    · simp [blank, bind, Except.bind]
    · have filled : (wordsOf stage).length ≠ 0 := by simpa using blank
      rw [if_pos few, if_pos ⟨few, blank⟩]
      exact if_neg filled
  · simp [few, bind, Except.bind]

theorem parseProcess_eq (stage : List UInt8) (clean : 0 ∉ stage) :
    parseProcess stage =
      if (wordsOf stage).length < maxArgs ∧ wordsOf stage ≠ [] then do
        let process := { emptyProcess with arguments := (wordsOf stage).map some ++ [none] }
        match ← scanTokens 0 (wordsOf stage) { process, redirectFound := false } with
        | none => .ok .error
        | some scan =>
          if scan.redirectFound then .ok (.process scan.process)
          else .ok (.process { scan.process with argc := (wordsOf stage).length })
      else .ok .empty := by
  apply parseProcessWith_eq
  rw [parseTokens_eq _ _ _ clean (by decide)]
  exact counted_wordsOf stage

theorem scanTokens_plain (tokens : List (List UInt8)) (index : Nat) (scan : ArgumentScan)
    (fresh : scan.redirectFound = false)
    (plain : ∀ token ∈ tokens, greater ∉ token ∧ less ∉ token) :
    scanTokens index tokens scan = .ok (some scan) := by
  induction tokens generalizing index with
  | nil => rfl
  | cons token rest ih =>
    obtain ⟨noOut, noIn⟩ := plain token (by simp)
    have out : charInSet greater token = false := by
      simpa only [Bool.eq_false_iff, ne_eq, charInSet_eq_true] using noOut
    have into : charInSet less token = false := by
      simpa only [Bool.eq_false_iff, ne_eq, charInSet_eq_true] using noIn
    simpa [scanTokens_cons, out, into, fresh] using
      ih (index + 1) fun other member => plain other (by simp [member])

theorem parseProcess_plain (stage : List UInt8) (clean : 0 ∉ stage) (noOut : greater ∉ stage)
    (noIn : less ∉ stage) :
    parseProcess stage =
      if (wordsOf stage).length < maxArgs ∧ wordsOf stage ≠ [] then
        .ok (.process { emptyProcess with
          arguments := (wordsOf stage).map some ++ [none], argc := (wordsOf stage).length })
      else .ok .empty := by
  have plain : ∀ token ∈ wordsOf stage, greater ∉ token ∧ less ∉ token := by
    intro token inside
    constructor <;> intro member <;>
      rcases mem_pieces _ _ _ stage token _ inside member with found | found <;> contradiction
  rw [parseProcess_eq stage clean]
  dsimp only
  rw [scanTokens_plain (wordsOf stage) 0 _ rfl plain]
  rfl

theorem parseStages_pipeline (stages : List (List UInt8)) (before pipeline : List Process) :
    parseStages stages before = .ok (.pipeline pipeline) ↔
      ∃ processes, pipeline = before ++ processes ∧
        List.Forall₂ (fun stage process => parseProcess stage = .ok (.process process))
          stages processes := by
  induction stages generalizing before with
  | nil => simp [eq_comm]
  | cons stage rest ih =>
    rw [parseStages_cons]
    cases parsed : parseProcess stage with
    | error stop => simp [bind, Except.bind, List.forall₂_cons_left_iff, parsed]
    | ok result =>
      cases result with
      | empty => simp [bind, Except.bind, List.forall₂_cons_left_iff, parsed]
      | error => simp [bind, Except.bind, List.forall₂_cons_left_iff, parsed]
      | process process =>
        simp only [bind, Except.bind, ih, List.forall₂_cons_left_iff, parsed]
        constructor
        · rintro ⟨processes, rfl, each⟩
          exact ⟨process :: processes, by simp, process, processes, rfl, each, rfl⟩
        · rintro ⟨-, rfl, first, processes, same, each, rfl⟩
          obtain rfl : process = first := by simpa using same
          exact ⟨processes, by simp, each⟩

theorem dispatch_job (run : Builtin → List (Option (List UInt8)) → Nat → ParseResult) (job : Job) :
    (dispatch run job).job = some job := by
  unfold dispatch
  repeat' split
  all_goals rfl

theorem stagesOf_ne_nil (line : Line) : stagesOf line ≠ [] :=
  split_ne_nil _ _ _

def lineJob (below : UInt8) (line : Line) (pipeline : List Process) : Job :=
  { emptyJob with
    fg := !lineBackground below line, pipeline, pipelineSize := (stagesOf line).length }

theorem interpretLine_of_parsed (run : Builtin → List (Option (List UInt8)) → Nat → ParseResult)
    (below : UInt8) (line : Line) (pipeline : List Process)
    (few : (stagesOf line).length < maxArgs)
    (parsed : List.Forall₂ (fun stage process => parseProcess stage = .ok (.process process))
      (stagesOf line) pipeline) :
    interpretLine run below line = .ok (dispatch run (lineJob below line pipeline)) := by
  have stages : counted (verdict (stagesOf line)) = .ok (stagesOf line) := by
    rw [verdict_of_lt _ few, counted]
  have loop : parseStages (stagesOf line) [] = .ok (.pipeline pipeline) :=
    (parseStages_pipeline _ _ _).mpr ⟨pipeline, by simp, parsed⟩
  rw [interpretLine_eq, stages]
  simp only [bind, Except.bind, List.length_eq_zero_iff, stagesOf_ne_nil, if_false, loop]
  rfl

theorem interpretLine_built (run : Builtin → List (Option (List UInt8)) → Nat → ParseResult)
    (below : UInt8) (line : Line) (outcome : LineOutcome) (job : Job)
    (returned : interpretLine run below line = .ok outcome) (built : outcome.job = some job) :
    (stagesOf line).length < maxArgs ∧
      List.Forall₂ (fun stage process => parseProcess stage = .ok (.process process))
        (stagesOf line) job.pipeline ∧
      job = lineJob below line job.pipeline ∧ outcome = dispatch run job := by
  rw [interpretLine_eq] at returned
  by_cases few : (stagesOf line).length < maxArgs
  · have stages : counted (verdict (stagesOf line)) = .ok (stagesOf line) := by
      rw [verdict_of_lt _ few, counted]
    rw [stages] at returned
    simp only [bind, Except.bind, List.length_eq_zero_iff, stagesOf_ne_nil, if_false] at returned
    cases loop : parseStages (stagesOf line) [] with
    | error stop => simp [loop] at returned
    | ok result =>
      cases result with
      | failed result =>
        simp only [loop, Except.ok.injEq] at returned
        simp [← returned] at built
      | pipeline pipeline =>
        simp only [loop, Except.ok.injEq] at returned
        subst returned
        rw [dispatch_job, Option.some.injEq] at built
        obtain ⟨processes, same, parsed⟩ := (parseStages_pipeline _ _ _).mp loop
        rw [List.nil_append] at same
        subst built same
        exact ⟨few, parsed, rfl, rfl⟩
  · -- Too many stages leave no job, with or without an overrun.
    have stages : counted (verdict (stagesOf line)) = .ok [] ∨
        counted (verdict (stagesOf line)) = .error .overrun := by
      rw [verdict, if_neg few]
      split <;> simp [counted]
    rcases stages with stages | stages
    · rw [stages] at returned
      simp only [bind, Except.bind, List.length_nil, if_true, Except.ok.injEq] at returned
      simp [← returned] at built
    · rw [stages] at returned
      simp [bind, Except.bind] at returned

theorem lineCommand_subset (line : Line) : lineCommand line ⊆ line.bytes := by
  have trimmed_subset (text : List UInt8) : trimmed text ⊆ text := by
    unfold trimmed
    split
    next => split <;> simp [List.dropLast_subset]
    next => simp
  have front : trimFront line.bytes whitespace ⊆ line.bytes :=
    (List.dropWhile_sublist _).subset
  unfold lineCommand
  dsimp only
  split
  · exact List.Subset.trans (List.dropLast_subset _) (List.Subset.trans (trimmed_subset _) front)
  · exact List.Subset.trans (trimmed_subset _) front

theorem stagesOf_clean (line : Line) : ∀ stage ∈ stagesOf line, 0 ∉ stage := by
  intro stage member nul
  rcases mem_pieces backslash (charInSet · [bar]) true (lineCommand line) stage 0 member nul
    with found | found
  · exact lineCommand_clean line found
  · exact absurd found (by decide)

end Akiso.Shell
