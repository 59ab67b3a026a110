import Akiso.Shell.Grammar
import Akiso.Shell.Reporting

set_option autoImplicit false

namespace Akiso.Shell

instance (token : List UInt8) : Decidable (IsBare token) :=
  inferInstanceAs (Decidable (less ∉ token ∧ greater ∉ token))

def argumentTokens (tokens : List (List UInt8)) : List (List UInt8) :=
  tokens.filter fun token => IsBare token

def redirectTokens (tokens : List (List UInt8)) : List (List UInt8) :=
  tokens.filter fun token => ¬ IsBare token

def ReadsAs (token : List UInt8) (redirect : Redirect) : Prop :=
  parseRedirect token (charInSet greater token) = .ok (some redirect)

/-- An argument vector as execvp and the comparison with the builtins need it, and the redirects of
the stage in the order in which they are written. -/
structure Shaped (stage : List UInt8) (process : Process) : Prop where
  some : 1 ≤ process.argc
  words : process.words = (argumentTokens (wordsOf stage)).map .some
  filled : ∀ index < process.argc, ∃ word, process.arguments[index]? = .some (.some word) ∧
    word ≠ [] ∧ less ∉ word ∧ greater ∉ word
  ended : process.arguments[process.argc]? = .some none
  redirects : List.Forall₂ ReadsAs (redirectTokens (wordsOf stage)) process.redirects

structure WellShaped (line : Line) (job : Job) : Prop where
  size : job.pipeline.length = job.pipelineSize
  some : 1 ≤ job.pipelineSize
  stages : List.Forall₂ Shaped (stagesOf line) job.pipeline

section Scan

variable {tokens : List (List UInt8)} {token : List UInt8} {index : Nat}
  {scan result : ArgumentScan}

theorem scanTokens_redirect (marked : ¬ IsBare token)
    (scanned : scanTokens index (token :: tokens) scan = .ok (some result)) :
    0 < index ∧ ∃ redirect, ReadsAs token redirect ∧
      scanTokens (index + 1) tokens (scan.addRedirect index redirect) = .ok (some result) := by
  rw [scanTokens_marked marked] at scanned
  split at scanned
  next => simp at scanned
  next late =>
    refine ⟨Nat.pos_of_ne_zero late, ?_⟩
    cases parsed : parseRedirect token (charInSet greater token) with
    | error stop => simp [parsed, bind, Except.bind] at scanned
    | ok read =>
      cases read with
      | none => simp [parsed, bind, Except.bind] at scanned
      | some redirect =>
        exact ⟨redirect, parsed, by simpa [parsed, bind, Except.bind] using scanned⟩

theorem scanTokens_redirects (found : scan.redirectFound = true)
    (scanned : scanTokens index tokens scan = .ok (some result)) :
    (∀ token ∈ tokens, ¬ IsBare token) ∧ result.redirectFound = true ∧
      result.process.argc = scan.process.argc ∧
      (∀ place < index, result.process.arguments[place]? = scan.process.arguments[place]?) ∧
      ∃ redirects, List.Forall₂ ReadsAs tokens redirects ∧
        result.process.redirects = scan.process.redirects ++ redirects := by
  induction tokens generalizing index scan with
  | nil =>
    simp only [scanTokens_nil, Except.ok.injEq, Option.some.injEq] at scanned
    subst scanned
    exact ⟨by simp, found, rfl, fun _ _ => rfl, [], .nil, by simp⟩
  | cons token rest ih =>
    by_cases bare : IsBare token
    next => simp [scanTokens_bare bare, found] at scanned
    next =>
      obtain ⟨-, redirect, read, onward⟩ := scanTokens_redirect bare scanned
      obtain ⟨marked, still, argc, earlier, redirects, reads, added⟩ := ih rfl onward
      refine ⟨List.forall_mem_cons.mpr ⟨bare, marked⟩, still, ?_, ?_, redirect :: redirects,
        .cons read reads, ?_⟩
      · rw [argc]
        simp [ArgumentScan.addRedirect, found]
      · intro place before
        rw [earlier place (by omega)]
        have apart : index ≠ place := by omega
        simp [ArgumentScan.addRedirect, List.getElem?_set_ne apart]
      · rw [added]
        simp [ArgumentScan.addRedirect]

theorem scanTokens_words (fresh : scan.redirectFound = false)
    (room : index + tokens.length ≤ scan.process.arguments.length)
    (scanned : scanTokens index tokens scan = .ok (some result)) :
    ∃ words marked, tokens = words ++ marked ∧ (∀ token ∈ words, IsBare token) ∧
      (∀ token ∈ marked, ¬ IsBare token) ∧
      (marked = [] → result = scan) ∧
      (marked ≠ [] → result.redirectFound = true ∧ 0 < index + words.length ∧
        result.process.argc = index + words.length ∧
        result.process.arguments[index + words.length]? = some none) ∧
      (∀ place < index + words.length,
        result.process.arguments[place]? = scan.process.arguments[place]?) ∧
      ∃ redirects, List.Forall₂ ReadsAs marked redirects ∧
        result.process.redirects = scan.process.redirects ++ redirects := by
  induction tokens generalizing index with
  | nil =>
    simp only [scanTokens_nil, Except.ok.injEq, Option.some.injEq] at scanned
    subst scanned
    exact ⟨[], [], rfl, by simp, by simp, by simp, by simp, by simp, [], .nil, by simp⟩
  | cons token rest ih =>
    rw [List.length_cons] at room
    by_cases bare : IsBare token
    next =>
      rw [scanTokens_bare bare, fresh] at scanned
      obtain ⟨words, marked, rfl, bares, notBare, unchanged, ended, earlier, redirects, reads,
        added⟩ := ih (by omega) scanned
      have shift : index + 1 + words.length = index + (token :: words).length := by
        rw [List.length_cons]
        omega
      rw [shift] at ended earlier
      exact ⟨token :: words, marked, rfl, List.forall_mem_cons.mpr ⟨bare, bares⟩, notBare,
        unchanged, ended, earlier, redirects, reads, added⟩
    next =>
      obtain ⟨late, redirect, read, onward⟩ := scanTokens_redirect bare scanned
      obtain ⟨marked, still, argc, earlier, redirects, reads, added⟩ :=
        scanTokens_redirects rfl onward
      refine ⟨[], token :: rest, rfl, by simp, List.forall_mem_cons.mpr ⟨bare, marked⟩, by simp,
        fun _ => ⟨still, late, ?_, ?_⟩, ?_, redirect :: redirects, .cons read reads, ?_⟩
      · rw [argc]
        simp [ArgumentScan.addRedirect, fresh]
      · have within : index < scan.process.arguments.length := by omega
        rw [List.length_nil, Nat.add_zero, earlier index (by omega)]
        simp [ArgumentScan.addRedirect, within]
      · intro place before
        rw [List.length_nil, Nat.add_zero] at before
        have apart : index ≠ place := by omega
        rw [earlier place (by omega)]
        simp [ArgumentScan.addRedirect, List.getElem?_set_ne apart]
      · rw [added]
        simp [ArgumentScan.addRedirect]

end Scan

theorem filter_bare_split {words marked : List (List UInt8)} (bares : ∀ token ∈ words, IsBare token)
    (notBare : ∀ token ∈ marked, ¬ IsBare token) :
    argumentTokens (words ++ marked) = words ∧ redirectTokens (words ++ marked) = marked := by
  have kept : words.filter (fun token => IsBare token) = words :=
    List.filter_eq_self.mpr fun token member => decide_eq_true (bares token member)
  have dropped : marked.filter (fun token => IsBare token) = [] :=
    List.filter_eq_nil_iff.mpr fun token member => by simpa using notBare token member
  have missed : words.filter (fun token => ¬ IsBare token) = [] :=
    List.filter_eq_nil_iff.mpr fun token member => by simpa using bares token member
  have taken : marked.filter (fun token => ¬ IsBare token) = marked :=
    List.filter_eq_self.mpr fun token member => decide_eq_true (notBare token member)
  constructor
  · rw [argumentTokens, List.filter_append, kept, dropped, List.append_nil]
  · rw [redirectTokens, List.filter_append, missed, taken, List.nil_append]

theorem shaped_of_vector {stage : List UInt8} {process : Process}
    {words marked : List (List UInt8)} (split : wordsOf stage = words ++ marked)
    (bares : ∀ token ∈ words, IsBare token) (notBare : ∀ token ∈ marked, ¬ IsBare token)
    (some : words ≠ []) (argc : process.argc = words.length)
    (vector : ∀ place < words.length, process.arguments[place]? = .some words[place]?)
    (ended : process.arguments[words.length]? = .some none)
    (redirects : List.Forall₂ ReadsAs marked process.redirects) : Shaped stage process where
  some := by
    rw [argc]
    exact List.length_pos_iff.mpr some
  words := by
    rw [Process.words, argc, split, (filter_bare_split bares notBare).1]
    apply List.ext_getElem?
    intro place
    by_cases within : place < words.length
    next => simp [within, vector place within]
    next => simp [within]
  filled index before := by
    rw [argc] at before
    have member : words[index] ∈ words := List.getElem_mem before
    have listed : words[index] ∈ wordsOf stage := by
      rw [split]
      exact List.mem_append_left _ member
    have entry := vector index before
    rw [List.getElem?_eq_getElem before] at entry
    exact ⟨words[index], entry, wordsOf_filled stage _ listed, bares _ member⟩
  ended := argc ▸ ended
  redirects := by
    rw [split, (filter_bare_split bares notBare).2]
    exact redirects

theorem parseProcess_shaped {stage : List UInt8} {process : Process} (clean : 0 ∉ stage)
    (parsed : Parses stage process) : Shaped stage process := by
  rw [Parses, parseProcess_eq stage clean] at parsed
  split at parsed
  next filled =>
    dsimp only at parsed
    cases scanned : scanTokens 0 (wordsOf stage)
        { process := { emptyProcess with arguments := (wordsOf stage).map some ++ [none] }
          redirectFound := false } with
    | error stop => simp [scanned, bind, Except.bind] at parsed
    | ok outcome =>
      cases outcome with
      | none => simp [scanned, bind, Except.bind] at parsed
      | some result =>
        simp only [scanned, bind, Except.bind] at parsed
        obtain ⟨words, marked, split, bares, notBare, unchanged, ended, earlier, redirects, reads,
          added⟩ := scanTokens_words rfl (by simp) scanned
        rw [Nat.zero_add] at ended earlier
        have before : ∀ place < words.length,
            result.process.arguments[place]? = .some words[place]? := by
          intro place within
          rw [earlier place within, split]
          simp [List.getElem?_append, within]
        have readAll : List.Forall₂ ReadsAs marked result.process.redirects := by
          simpa [added, emptyProcess] using reads
        by_cases none : marked = []
        next =>
          -- No redirect: argc is set after the loop, and NULL is the one of parse_tokens.
          have same := unchanged none
          subst same none
          rw [List.append_nil] at split
          simp only [Bool.false_eq_true, if_false, Except.ok.injEq,
            ParsedProcess.process.injEq] at parsed
          subst parsed
          refine shaped_of_vector (by rwa [List.append_nil]) bares notBare ?_ (by simp [split])
            before ?_ readAll
          · rw [← split]
            exact filled.2
          · simp [split]
        next =>
          obtain ⟨found, late, argc, last⟩ := ended none
          simp only [found, if_true, Except.ok.injEq, ParsedProcess.process.injEq] at parsed
          subst parsed
          exact shaped_of_vector split bares notBare (List.length_pos_iff.mp late) argc before last
            readAll
  next => simp at parsed

theorem built_wellShaped (run : Builtin → List (Option (List UInt8)) → Nat → ParseResult)
    (below : UInt8) (line : Line) (outcome : LineOutcome) (job : Job)
    (returned : interpretLine run below line = .ok outcome) (built : outcome.job = some job) :
    WellShaped line job := by
  obtain ⟨few, parsed, same, -⟩ := interpretLine_built run below line outcome job returned built
  have size : job.pipelineSize = (stagesOf line).length := by rw [same, lineJob]
  have stages : List.Forall₂ Shaped (stagesOf line) job.pipeline := by
    refine List.forall₂_iff_get.mpr ⟨parsed.length_eq, fun index before within => ?_⟩
    exact parseProcess_shaped (stagesOf_clean line _ (List.get_mem _ _))
      (parsed.get before within)
  exact {
    size := by rw [size, ← parsed.length_eq]
    some := by
      rw [size]
      exact List.length_pos_iff.mpr (stagesOf_ne_nil line)
    stages }

def redirectedPipe : Line where
  bytes := [97, 32, 60, 98, 124, 99]
  clean := by decide
  fits := by decide

theorem built_wellShaped_redirected :
    ∃ outcome job, interpretLine (fun _ _ _ => .ok) 0 redirectedPipe = .ok outcome ∧
      outcome.job = some job ∧ job.pipelineSize = 2 ∧ WellShaped redirectedPipe job := by
  have returned : ∃ outcome, interpretLine (fun _ _ _ => .ok) 0 redirectedPipe = .ok outcome ∧
      ∃ job, outcome.job = some job ∧ job.pipelineSize = 2 := by
    refine ⟨_, rfl, _, rfl, by decide⟩
  obtain ⟨outcome, returned, job, built, size⟩ := returned
  exact ⟨outcome, job, returned, built, size, built_wellShaped _ 0 _ outcome job returned built⟩

end Akiso.Shell
