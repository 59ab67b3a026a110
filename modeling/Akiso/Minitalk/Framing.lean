import Akiso.Shared.CString
import Akiso.Minitalk.ReadLine

set_option autoImplicit false

namespace Akiso.Minitalk

open CString

/-- A read has no outcome yet, or a store has missed the buffer. -/
inductive LineStop where
  | blocked
  | outside
  deriving DecidableEq, Repr

/-- The variables of read_line's loop, its moving pointer as an offset into the buffer. -/
structure LineState where
  memory : List UInt8
  offset : Nat
  total : Int
  deriving DecidableEq, Repr

structure LineReturn where
  ret : Int
  memory : List UInt8
  rest : List ReadOutcome
  deriving DecidableEq, Repr

def LineState.put (state : LineState) (value : UInt8) : Except LineStop (List UInt8) :=
  if state.offset < state.memory.length then .ok (state.memory.set state.offset value)
  else .error .outside

def keepByte (n : Nat) (state : LineState) (ch : UInt8) : Except LineStop LineState := do
  if toSize state.total < toSize (n - 1) then
    let memory ← state.put ch
    return { memory, offset := state.offset + 1, total := state.total + 1 }
  else return state

def endLine (state : LineState) (rest : List ReadOutcome) : Except LineStop LineReturn := do
  let memory ← state.put 0
  return { ret := state.total, memory, rest }

def lineLoop (n : Nat) : LineState → List ReadOutcome → Except LineStop LineReturn
  | _, [] => .error .blocked
  | state, .interrupted :: rest => lineLoop n state rest
  | state, .error :: rest => .ok { ret := -1, memory := state.memory, rest }
  | state, .closed :: rest =>
    if state.total = 0 then .ok { ret := 0, memory := state.memory, rest }
    else endLine state rest
  | state, .byte ch :: rest => do
    let state ← keepByte n state ch
    if ch = newline then endLine state rest else lineLoop n state rest

-- read_line of the server with the memory it writes, which is never NULL.
def readLineInto (n : Nat) (buffer : List UInt8) (outcomes : List ReadOutcome) :
    Except LineStop LineReturn :=
  lineLoop n { memory := buffer, offset := 0, total := 0 } outcomes

structure LineCall where
  reads : List ReadOutcome
  before : List UInt8
  ret : Int
  after : List UInt8
  deriving DecidableEq, Repr

def LineCall.consumed (call : LineCall) : List UInt8 := bytesOf call.reads

def readLines (n : Nat) : Nat → List UInt8 → List ReadOutcome →
    Except LineStop (List LineCall × List ReadOutcome)
  | 0, _, outcomes => .ok ([], outcomes)
  | count + 1, buffer, outcomes => do
    let done ← readLineInto n buffer outcomes
    let reads := outcomes.take (outcomes.length - done.rest.length)
    let (calls, rest) ← readLines n count done.memory done.rest
    return ({ reads, before := buffer, ret := done.ret, after := done.memory } :: calls, rest)

/-- A stream as it is delivered: bytes and interruptions, and no byte behind its end. -/
structure Streamed (outcomes : List ReadOutcome) : Prop where
  sound : .error ∉ outcomes
  ended : ∀ before after, outcomes = before ++ .closed :: after → bytesOf after = []

def endsAhead (outcomes : List ReadOutcome) : Nat :=
  (bytesOf outcomes).count newline + outcomes.count .closed

def lineOf : List UInt8 → List UInt8
  | [] => []
  | value :: rest => if value = newline then [value] else value :: lineOf rest

def linesOf : Nat → List UInt8 → List (List UInt8)
  | 0, _ => []
  | count + 1, stream => lineOf stream :: linesOf count (stream.drop (lineOf stream).length)

structure LineCall.Framed (n : Nat) (call : LineCall) : Prop where
  ret : call.ret = (min call.consumed.length (n - 1) : Nat)
  kept : call.consumed ≠ [] → call.after =
    call.consumed.take (n - 1) ++
      0 :: call.before.drop (min call.consumed.length (n - 1) + 1)
  idle : call.consumed = [] → call.after = call.before
  ended : call.ret = 0 → call.consumed = [] ∧ .closed ∈ call.reads

variable {n : Nat} {before stored bytes buffer : List UInt8}
  {outcomes reads rest : List ReadOutcome}

def kept (before stored : List UInt8) : LineState :=
  { memory := stored ++ before.drop stored.length
    offset := stored.length
    total := stored.length }

theorem put_kept (room : stored.length < before.length) (value : UInt8) :
    (kept before stored).put value =
      .ok (stored ++ value :: before.drop (stored.length + 1)) := by
  have fits : (kept before stored).offset < (kept before stored).memory.length := by
    simp [kept]
    omega
  rw [LineState.put, if_pos fits]
  simp only [kept]
  rw [List.set_append_right _ _ (Nat.le_refl _), Nat.sub_self, List.drop_eq_getElem_cons room]
  rfl

theorem keepByte_kept (two : 2 ≤ n) (size : n < 18446744073709551616) (whole : before.length = n)
    (fits : stored.length ≤ n - 1) (ch : UInt8) :
    keepByte n (kept before stored) ch = .ok (kept before (store n stored ch)) := by
  have limit : toSize (n - 1) = n - 1 := by
    unfold toSize
    omega
  have total : toSize (kept before stored).total = stored.length :=
    toSize_natCast _ (by omega)
  rw [keepByte, total, limit, store]
  by_cases room : stored.length < n - 1
  · rw [if_pos room, if_pos room, put_kept (by omega)]
    simp [kept, bind, Except.bind, pure, Except.pure]
  · rw [if_neg room, if_neg room]
    rfl

theorem endLine_kept (room : stored.length < before.length) (rest : List ReadOutcome) :
    endLine (kept before stored) rest =
      .ok { ret := stored.length
            memory := stored ++ 0 :: before.drop (stored.length + 1)
            rest } := by
  rw [endLine, put_kept room]
  rfl

def bufferAfter (before bytes : List UInt8) : List UInt8 :=
  if bytes = [] then before else bytes ++ 0 :: before.drop (bytes.length + 1)

theorem lineLoop_kept (two : 2 ≤ n) (size : n < 18446744073709551616) (whole : before.length = n)
    (fits : stored.length ≤ n - 1)
    (returned : readLine n stored outcomes = some (some bytes, rest)) :
    lineLoop n (kept before stored) outcomes =
      .ok { ret := bytes.length, memory := bufferAfter before bytes, rest } := by
  fun_induction readLine n stored outcomes with
  | case1 => cases returned
  | case2 stored others ih => exact ih fits returned
  | case3 => cases returned
  | case4 stored others =>
    cases returned
    by_cases empty : bytes = []
    · subst empty
      rfl
    · have positive : ¬ (kept before bytes).total = 0 := by simpa [kept] using empty
      rw [lineLoop, if_neg positive, endLine_kept (by omega), bufferAfter, if_neg empty]
  | case5 stored others =>
    cases returned
    have some : store n stored newline ≠ [] := by
      unfold store
      split <;> simp
      rintro rfl
      simp at *
      omega
    have length := store_length newline fits
    rw [lineLoop, keepByte_kept two size whole fits]
    simp only [bind, Except.bind, if_true]
    rw [endLine_kept (by omega), bufferAfter, if_neg some]
  | case6 stored value others more ih =>
    rw [lineLoop, keepByte_kept two size whole fits]
    simp only [bind, Except.bind, if_neg more]
    exact ih (store_length value fits) returned

theorem readLine_reads (returned : readLine n stored outcomes = some (some bytes, rest)) :
    ∃ init last, outcomes = init ++ last :: rest ∧ (last = .byte newline ∨ last = .closed) ∧
      newline ∉ bytesOf init ∧ .closed ∉ init := by
  fun_induction readLine n stored outcomes with
  | case1 => cases returned
  | case2 stored others ih =>
    obtain ⟨init, last, split, ends, plain, isOpen⟩ := ih returned
    exact ⟨.interrupted :: init, last, by simp [split], ends, by simpa [bytesOf], by simpa⟩
  | case3 => cases returned
  | case4 =>
    cases returned
    exact ⟨[], .closed, rfl, .inr rfl, by simp [bytesOf], by simp⟩
  | case5 =>
    cases returned
    exact ⟨[], .byte newline, rfl, .inl rfl, by simp [bytesOf], by simp⟩
  | case6 stored value others more ih =>
    obtain ⟨init, last, split, ends, plain, isOpen⟩ := ih returned
    refine ⟨.byte value :: init, last, by simp [split], ends, ?_, by simpa⟩
    simpa [bytesOf, Ne.symm more] using plain

theorem endsAhead_reads {init : List ReadOutcome} {last : ReadOutcome}
    (ends : last = .byte newline ∨ last = .closed) (plain : newline ∉ bytesOf init)
    (isOpen : .closed ∉ init) : endsAhead (init ++ last :: rest) = endsAhead rest + 1 := by
  have none : (bytesOf init).count newline = 0 := List.count_eq_zero.mpr plain
  have closings : init.count .closed = 0 := List.count_eq_zero.mpr isOpen
  rcases ends with rfl | rfl
  · simp only [endsAhead, bytesOf_append, bytesOf, List.count_append, List.count_cons_self, none,
      closings, List.count_cons_of_ne (show ReadOutcome.byte newline ≠ .closed by decide)]
    omega
  · simp only [endsAhead, bytesOf_append, bytesOf, List.count_append, List.count_cons_self, none,
      closings]
    omega

theorem readLine_returns (sound : .error ∉ outcomes) (ahead : 0 < endsAhead outcomes) :
    ∃ bytes rest, readLine n stored outcomes = some (some bytes, rest) := by
  fun_induction readLine n stored outcomes with
  | case1 => simp [endsAhead, bytesOf] at ahead
  | case2 stored others ih =>
    refine ih (fun member => sound (List.mem_cons_of_mem _ member)) ?_
    simpa [endsAhead, bytesOf] using ahead
  | case3 => simp at sound
  | case4 stored others => exact ⟨stored, others, rfl⟩
  | case5 stored others => exact ⟨_, others, rfl⟩
  | case6 stored value others more ih =>
    refine ih (fun member => sound (List.mem_cons_of_mem _ member)) ?_
    simpa [endsAhead, bytesOf, more] using ahead

theorem Streamed.later (reads : List ReadOutcome) (streamed : Streamed (reads ++ rest)) :
    Streamed rest where
  sound member := streamed.sound (List.mem_append_right _ member)
  ended before after shape :=
    streamed.ended (reads ++ before) after (by rw [shape, List.append_assoc])

theorem Streamed.bytesOf_eq_nil (streamed : Streamed (reads ++ rest)) (closed : .closed ∈ reads) :
    bytesOf rest = [] := by
  obtain ⟨before, after, rfl⟩ := List.append_of_mem closed
  have none := streamed.ended before (after ++ rest) (by simp)
  rw [bytesOf_append] at none
  exact (List.append_eq_nil_iff.mp none).2

theorem streamed_append (reads rest : List ReadOutcome) (sound : .error ∉ reads ++ rest)
    (isOpen : .closed ∉ reads) (last : bytesOf rest = []) : Streamed (reads ++ rest) := by
  refine ⟨sound, fun before after shape => ?_⟩
  rcases List.append_eq_append_iff.mp shape with ⟨middle, _, tail⟩ | ⟨middle, head, tail⟩
  · rw [tail, bytesOf_append] at last
    exact (List.append_eq_nil_iff.mp last).2
  · cases middle with
    | nil =>
      rw [List.nil_append] at tail
      rwa [← tail] at last
    | cons outcome middle =>
      rw [List.cons_append, List.cons.injEq] at tail
      rw [head, ← tail.1] at isOpen
      simp at isOpen

theorem nextLine_eq (streamed : Streamed outcomes) :
    nextLine outcomes = lineOf (bytesOf outcomes) := by
  fun_induction nextLine outcomes with
  | case1 => rfl
  | case2 others ih => exact ih (Streamed.later [.interrupted] streamed)
  | case3 others => exact absurd (List.mem_cons_self ..) streamed.sound
  | case4 others => simp [bytesOf, streamed.ended [] others rfl, lineOf]
  | case5 others => simp [bytesOf, lineOf]
  | case6 value others more ih =>
    simp [bytesOf, lineOf, more, ih (Streamed.later [.byte value] streamed)]

theorem readLineInto_framed (two : 2 ≤ n) (size : n < 18446744073709551616)
    (whole : buffer.length = n) (streamed : Streamed outcomes) (ahead : 0 < endsAhead outcomes) :
    ∃ call : LineCall, ∃ rest, call.Framed n ∧ call.before = buffer ∧ call.after.length = n ∧
      outcomes = call.reads ++ rest ∧ endsAhead outcomes = endsAhead rest + 1 ∧
      call.consumed = lineOf (bytesOf outcomes) ∧
      readLineInto n buffer outcomes = .ok { ret := call.ret, memory := call.after, rest } := by
  obtain ⟨bytes, rest, returned⟩ :
      ∃ bytes rest, readLine n [] outcomes = some (some bytes, rest) :=
    readLine_returns streamed.sound ahead
  obtain ⟨init, last, split, ends, plain, isOpen⟩ := readLine_reads returned
  have line : bytesOf (init ++ [last]) = lineOf (bytesOf outcomes) := by
    have consumes := readLine_consumes returned
    have joined : bytesOf outcomes = bytesOf (init ++ [last]) ++ bytesOf rest := by
      rw [split, ← bytesOf_append, List.append_assoc, List.singleton_append]
    rw [nextLine_eq streamed] at consumes
    exact List.append_cancel_right (joined.symm.trans consumes)
  have takes : bytes = (lineOf (bytesOf outcomes)).take (n - 1) := by
    simpa [nextLine_eq streamed] using readLine_takes (by simp) returned
  have length : bytes.length = min (lineOf (bytesOf outcomes)).length (n - 1) := by
    rw [takes, List.length_take, Nat.min_comm]
  have empty : bytes = [] ↔ bytesOf (init ++ [last]) = [] := by
    rw [line, ← List.length_eq_zero_iff, ← List.length_eq_zero_iff, length]
    omega
  refine ⟨{ reads := init ++ [last], before := buffer, ret := bytes.length
            after := bufferAfter buffer bytes }, rest, ?_, rfl, ?_, by simp [split], ?_, line, ?_⟩
  · refine ⟨?_, ?_, ?_, ?_⟩
    · simp [LineCall.consumed, line, length]
    · intro some
      simp only [LineCall.consumed] at some ⊢
      rw [bufferAfter, if_neg (mt empty.mp some), line, ← length, ← takes]
    · intro idle
      exact if_pos (empty.mpr idle)
    · intro zero
      have idle := empty.mp (List.length_eq_zero_iff.mp (by simpa using zero))
      refine ⟨idle, ?_⟩
      rcases ends with rfl | rfl
      · simp [bytesOf] at idle
      · simp
  · unfold bufferAfter
    split
    next => exact whole
    next =>
      simp
      omega
  · rw [split, endsAhead_reads ends plain isOpen]
  · have start : kept buffer [] = { memory := buffer, offset := 0, total := 0 } := rfl
    rw [readLineInto, ← start]
    exact lineLoop_kept two size whole (by simp) returned

theorem readLines_reads (two : 2 ≤ n) (size : n < 18446744073709551616)
    (whole : buffer.length = n) (streamed : Streamed outcomes) {count : Nat}
    (ahead : count ≤ endsAhead outcomes) :
    ∃ calls rest, readLines n count buffer outcomes = .ok (calls, rest) ∧
      (∀ call ∈ calls, call.Framed n) ∧
      calls.map LineCall.consumed = linesOf count (bytesOf outcomes) ∧
      outcomes = calls.flatMap LineCall.reads ++ rest := by
  induction count generalizing buffer outcomes with
  | zero => exact ⟨[], outcomes, rfl, by simp, rfl, rfl⟩
  | succ count ih =>
    obtain ⟨call, middle, framed, same, length, split, ends, line, returned⟩ :=
      readLineInto_framed two size whole streamed (by omega)
    subst same
    have later : Streamed middle := by
      rw [split] at streamed
      exact Streamed.later call.reads streamed
    obtain ⟨calls, rest, run, all, lines, reads⟩ := ih length later (by omega)
    have tail : bytesOf middle = (bytesOf outcomes).drop (lineOf (bytesOf outcomes)).length := by
      rw [← line, LineCall.consumed, split, bytesOf_append, List.drop_left]
    have taken : outcomes.take (outcomes.length - middle.length) = call.reads := by
      simp [split]
    refine ⟨call :: calls, rest, ?_, ?_, ?_, ?_⟩
    · simp [readLines, returned, run, taken, bind, Except.bind, pure, Except.pure]
    · simpa using ⟨framed, all⟩
    · rw [List.map_cons, lines, line, tail]
      rfl
    · rw [List.flatMap_cons, List.append_assoc, ← reads]
      exact split

theorem bytesOf_flatMap (calls : List LineCall) :
    bytesOf (calls.flatMap LineCall.reads) = (calls.map LineCall.consumed).flatten := by
  induction calls with
  | nil => rfl
  | cons call calls ih => simp [LineCall.consumed, ih]

/-- Successive calls of read_line on one stream: they return as long as a newline or the end of the
stream is ahead, consume it line by line, and each stores of its line what fits. At the end of the
stream the buffer is left alone. -/
theorem readLines_framed (two : 2 ≤ n) (size : n < 18446744073709551616)
    (whole : buffer.length = n) (streamed : Streamed outcomes) {count : Nat}
    (ahead : count ≤ endsAhead outcomes) :
    ∃ calls rest, readLines n count buffer outcomes = .ok (calls, rest) ∧
      (∀ call ∈ calls, call.Framed n) ∧
      calls.map LineCall.consumed = linesOf count (bytesOf outcomes) ∧
      (calls.map LineCall.consumed).flatten ++ bytesOf rest = bytesOf outcomes ∧
      ((∃ call ∈ calls, call.ret = 0) →
        (calls.map LineCall.consumed).flatten = bytesOf outcomes) := by
  obtain ⟨calls, rest, run, framed, lines, reads⟩ :=
    readLines_reads two size whole streamed ahead
  have whole : (calls.map LineCall.consumed).flatten ++ bytesOf rest = bytesOf outcomes := by
    rw [← bytesOf_flatMap, ← bytesOf_append, ← reads]
  refine ⟨calls, rest, run, framed, lines, whole, ?_⟩
  rintro ⟨call, member, zero⟩
  have closed := List.mem_flatMap.mpr ⟨call, member, ((framed call member).ended zero).2⟩
  rw [reads] at streamed
  rw [← whole, streamed.bytesOf_eq_nil closed, List.append_nil]

theorem readLines_framed_cut :
    let outcomes : List ReadOutcome := [.byte 97, .interrupted, .byte 98, .byte 10, .byte 99,
      .closed, .interrupted, .closed]
    ∃ calls rest, readLines 2 3 [7, 7] outcomes = .ok (calls, rest) ∧
      (∀ call ∈ calls, call.Framed 2) ∧
      calls.map LineCall.consumed = linesOf 3 (bytesOf outcomes) ∧
      (calls.map LineCall.consumed).flatten ++ bytesOf rest = bytesOf outcomes ∧
      ((∃ call ∈ calls, call.ret = 0) →
        (calls.map LineCall.consumed).flatten = bytesOf outcomes) := by
  intro outcomes
  have streamed : Streamed outcomes :=
    streamed_append [.byte 97, .interrupted, .byte 98, .byte 10, .byte 99]
      [.closed, .interrupted, .closed] (by decide) (by decide) rfl
  have whole : ([7, 7] : List UInt8).length = 2 := rfl
  exact readLines_framed (by decide) (by decide) whole streamed (by decide)

theorem readLine_unterminated :
    ¬ ∀ (n : Nat) (buffer : List UInt8) (outcomes : List ReadOutcome), 2 ≤ n →
      n < 18446744073709551616 → buffer.length = n → Streamed outcomes →
      ∀ count, count ≤ endsAhead outcomes →
        ∃ calls rest, readLines n count buffer outcomes = .ok (calls, rest) ∧
          ∀ call ∈ calls, call.after.take (min call.consumed.length (n - 1) + 1) =
            call.consumed.take (n - 1) ++ [0] := by
  intro claim
  have streamed : Streamed [.closed] :=
    streamed_append [] [.closed] (by decide) (by decide) rfl
  obtain ⟨calls, rest, run, stored⟩ :=
    claim 2 [7, 7] [.closed] (by decide) (by decide) rfl streamed 1 (by decide)
  have only : readLines 2 1 [7, 7] [.closed] =
      .ok ([{ reads := [.closed], before := [7, 7], ret := 0, after := [7, 7] }], []) := rfl
  rw [only, Except.ok.injEq, Prod.mk.injEq] at run
  have last := stored _ (by rw [← run.1]; exact List.mem_singleton_self _)
  exact absurd last (by decide)

end Akiso.Minitalk
