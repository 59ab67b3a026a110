import Akiso.Shell.Parser

set_option autoImplicit false

namespace Akiso.Shell

open CString

/-- What a read from the pipe meets: `available` bytes are there, or the end of the file if the
writer has closed the pipe and all is read. -/
inductive PipeEvent where
  | interrupted
  | failed
  | ready (available : Nat)
  deriving DecidableEq, Repr

inductive PipeAnswer where
  | interrupted
  | failed
  | read (bytes : List UInt8)
  deriving DecidableEq, Repr

def PipeAnswer.ret : PipeAnswer → Int
  | .interrupted => -1
  | .failed => -1
  | .read bytes => bytes.length

def PipeAnswer.bytes : PipeAnswer → List UInt8
  | .interrupted => []
  | .failed => []
  | .read bytes => bytes

def pipeRead (pipe : List UInt8) (count : Nat) : PipeEvent → PipeAnswer
  | .interrupted => .interrupted
  | .failed => .failed
  | .ready available => .read ((pipe.take available).take count)

def sizeofInt : Nat := 4

def intBytes (value : UInt32) : List UInt8 :=
  [UInt8.ofNat value.toNat, UInt8.ofNat (value.toNat / 256), UInt8.ofNat (value.toNat / 65536),
    UInt8.ofNat (value.toNat / 16777216)]

def intOf : List UInt8 → Option UInt32
  | [first, second, third, fourth] =>
    some (UInt32.ofNat (first.toNat + 256 * second.toNat + 65536 * third.toNat +
      16777216 * fourth.toNat))
  | _ => none

-- What the child writes, unless one of its writes fails; the message is a C string.
def writeError (errno : UInt32) (message : List UInt8) : List UInt8 :=
  intBytes errno ++ message

/-- read_error when it has returned: `err` is what the read has put into *err, if it has put
anything there, and `buff` the cells of buff stored to, `stores` being their indices. -/
structure ErrorRead where
  result : Int
  err : Option UInt32
  buff : Nat → Option UInt8
  stores : List Nat

def ErrorRead.start : ErrorRead :=
  { result := 0, err := none, buff := fun _ => none, stores := [] }

def ErrorRead.storeBytes (state : ErrorRead) (bytes : List UInt8) : ErrorRead :=
  { state with
    buff := fun index => (bytes[index]?).or (state.buff index)
    stores := state.stores ++ List.range bytes.length }

def ErrorRead.storeNul (state : ErrorRead) (index : Nat) : ErrorRead :=
  { state with
    buff := fun other => if other = index then some 0 else state.buff other
    stores := state.stores ++ [index] }

def readError (buffsize : Nat) : ErrorRead → List UInt8 → List PipeEvent → Option ErrorRead
  | _, _, [] => none
  | state, pipe, event :: rest =>
    let answer := pipeRead pipe sizeofInt event
    let ret := answer.ret
    let state := { state with err := (intOf answer.bytes).or state.err }
    if ret = 0 then some { state with result := 0 }
    else if (ret = -1 ∧ answer ≠ .interrupted) ∨ toSize ret ≠ sizeofInt then
      some { state with result := -1 }
    else
      match rest with
      | [] => none
      | event :: rest =>
        let pipe := pipe.drop answer.bytes.length
        let answer := pipeRead pipe buffsize event
        -- an int, which the sum fits in for a buffsize that leaves it room
        let ret := ret + answer.ret
        let state := state.storeBytes answer.bytes
        if 0 ≤ ret then
          some { state.storeNul (toSize (ret - sizeofInt)) with result := ret }
        else readError buffsize state (pipe.drop answer.bytes.length) rest

structure ChildError where
  errno : UInt32
  message : List UInt8
  clean : 0 ∉ message

def piped : Option ChildError → List UInt8
  | none => []
  | some error => writeError error.errno error.message

-- The number is written at once and is in the pipe as a whole; after it a read does not return
-- before something is there.
def PipeGives : List PipeEvent → Prop
  | [] => True
  | .interrupted :: rest => PipeGives rest
  | .failed :: _ => True
  | .ready available :: rest => sizeofInt ≤ available ∧ .ready 0 ∉ rest

def settledEvent : List PipeEvent → Option PipeEvent
  | [] => none
  | .interrupted :: rest => settledEvent rest
  | event :: _ => some event

def afterNumber : List PipeEvent → List PipeEvent
  | .interrupted :: rest => afterNumber rest
  | _ :: rest => rest
  | [] => []

def handedOver (message : List UInt8) (events : List PipeEvent) : List UInt8 :=
  match settledEvent (afterNumber events) with
  | some (.ready available) => message.take available
  | _ => []

structure HoldsString (buff : Nat → Option UInt8) (text : List UInt8) : Prop where
  bytes : ∀ index < text.length, buff index = text[index]?
  ended : buff text.length = some 0

structure Delivers (buffsize : Nat) (error : ChildError) (events : List PipeEvent)
    (read : ErrorRead) : Prop where
  number : read.err = some error.errno
  text : HoldsString read.buff ((handedOver error.message events).take (buffsize - 1))
  nonzero : read.result ≠ 0

def ReportsError (buffsize : Nat) (child : Option ChildError) (events : List PipeEvent)
    (read : ErrorRead) : Prop :=
  (∀ index ∈ read.stores, index < buffsize) ∧
    match child with
    | none => read.result = 0
    | some error => Delivers buffsize error events read

-- No read is interrupted or fails, and the second leaves room for the NUL.
def Undisturbed (buffsize : Nat) (child : Option ChildError) (events : List PipeEvent) : Prop :=
  (∃ available, events.head? = some (.ready available)) ∧
    ∀ error, child = some error → ∃ available, events[1]? = some (.ready available) ∧
      min available error.message.length < buffsize

theorem intOf_intBytes (value : UInt32) : intOf (intBytes value) = some value := by
  have small := value.toNat_lt
  simp only [intOf, intBytes, Option.some.injEq]
  apply UInt32.toNat_inj.mp
  simp only [UInt32.toNat_ofNat', UInt8.toNat_ofNat']
  omega

section Read

variable {buffsize : Nat} {error : ChildError} {events : List PipeEvent} {read : ErrorRead}

theorem readError_lost (pipe : List UInt8) {event : PipeEvent}
    (lost : event = .interrupted ∨ event = .failed) :
    readError buffsize .start pipe (event :: events) =
      some { ErrorRead.start with result := -1 } := by
  have refused : toSize (-1) ≠ sizeofInt := by decide
  rcases lost with rfl | rfl <;> cases events <;>
    simp [readError, pipeRead, PipeAnswer.ret, PipeAnswer.bytes, intOf, refused, ErrorRead.start]

theorem not_reportsError_lost (child : Option ChildError) :
    ¬ ReportsError buffsize child events { ErrorRead.start with result := -1 } := by
  intro reports
  cases child with
  | none => simpa using reports.2
  | some error => simpa [ErrorRead.start] using reports.2.number

theorem readError_closed (available : Nat) :
    readError buffsize .start [] (.ready available :: events) = some .start := by
  cases events <;>
    simp [readError, pipeRead, PipeAnswer.ret, PipeAnswer.bytes, intOf, ErrorRead.start]

def afterMessage (error : ChildError) (answer : PipeAnswer) : ErrorRead :=
  let ret := (sizeofInt : Int) + answer.ret
  let state := { ErrorRead.start with err := some error.errno }.storeBytes answer.bytes
  { state.storeNul (toSize (ret - sizeofInt)) with result := ret }

theorem ret_ge (answer : PipeAnswer) : -1 ≤ answer.ret := by
  cases answer with
  | interrupted => simp [PipeAnswer.ret]
  | failed => simp [PipeAnswer.ret]
  | read bytes => simp only [PipeAnswer.ret]; omega

theorem pipeRead_number {available : Nat} (whole : sizeofInt ≤ available) :
    pipeRead (writeError error.errno error.message) sizeofInt (.ready available) =
      .read (intBytes error.errno) := by
  have length : (intBytes error.errno).length = sizeofInt := rfl
  rw [pipeRead, List.take_take, Nat.min_eq_left whole, writeError, ← length, List.take_left]

theorem readError_number {available : Nat} (whole : sizeofInt ≤ available) (event : PipeEvent) :
    readError buffsize .start (writeError error.errno error.message)
        (.ready available :: event :: events) =
      some (afterMessage error (pipeRead error.message buffsize event)) := by
  have ret : (PipeAnswer.read (intBytes error.errno)).ret = sizeofInt := rfl
  have accepted : toSize sizeofInt = sizeofInt := by decide
  have rest : (writeError error.errno error.message).drop (intBytes error.errno).length =
      error.message := by
    rw [writeError, List.drop_left]
  have more : 0 ≤ (sizeofInt : Int) + (pipeRead error.message buffsize event).ret := by
    have least := ret_ge (pipeRead error.message buffsize event)
    simp only [sizeofInt]
    omega
  have some : sizeofInt ≠ 0 ∧ (sizeofInt : Int) ≠ -1 := by decide
  simp [readError, pipeRead_number whole, ret, accepted, PipeAnswer.bytes, intOf_intBytes, rest,
    more, some, afterMessage, ErrorRead.start]

theorem afterMessage_lost (error : ChildError) (bounded : buffsize < 18446744073709551616)
    {answer : PipeAnswer} (lost : answer.ret = -1) :
    ∃ index ∈ (afterMessage error answer).stores, ¬ index < buffsize := by
  have index : toSize ((sizeofInt : Int) + answer.ret - sizeofInt) = 18446744073709551615 := by
    rw [lost]
    decide
  refine ⟨18446744073709551615, ?_, by omega⟩
  simp only [afterMessage, ErrorRead.storeNul, index]
  exact List.mem_append_right _ (List.mem_singleton_self _)

theorem afterMessage_read (error : ChildError) {bytes : List UInt8}
    (small : bytes.length < 18446744073709551616) :
    (afterMessage error (.read bytes)).stores = List.range (bytes.length + 1) ∧
      (afterMessage error (.read bytes)).err = some error.errno ∧
      (afterMessage error (.read bytes)).result = sizeofInt + bytes.length ∧
      HoldsString (afterMessage error (.read bytes)).buff bytes := by
  have index : toSize ((sizeofInt : Int) + bytes.length - sizeofInt) = bytes.length := by
    rw [show (sizeofInt : Int) + bytes.length - sizeofInt = bytes.length by omega]
    exact toSize_natCast _ small
  have read : afterMessage error (.read bytes) =
      let state := { ErrorRead.start with err := some error.errno }.storeBytes bytes
      { state.storeNul bytes.length with result := sizeofInt + bytes.length } := by
    simp only [afterMessage, PipeAnswer.ret, PipeAnswer.bytes, index]
  rw [read]
  refine ⟨?_, rfl, rfl, fun place within => ?_, ?_⟩
  · simp [ErrorRead.storeNul, ErrorRead.storeBytes, ErrorRead.start, List.range_succ]
  · have apart : place ≠ bytes.length := by omega
    simp [ErrorRead.storeNul, ErrorRead.storeBytes, ErrorRead.start, apart, within]
  · simp [ErrorRead.storeNul]

theorem reportsError_second_iff (positive : 0 < buffsize)
    (bounded : buffsize < 18446744073709551616) {available : Nat} (event : PipeEvent) :
    ReportsError buffsize (some error) (.ready available :: event :: events)
        (afterMessage error (pipeRead error.message buffsize event)) ↔
      ∃ arrived, event = .ready arrived ∧ min arrived error.message.length < buffsize := by
  cases event with
  | interrupted =>
    obtain ⟨index, stored, outside⟩ := afterMessage_lost error bounded
      (show (pipeRead error.message buffsize .interrupted).ret = -1 from rfl)
    exact iff_of_false (fun reports => outside (reports.1 index stored)) (by simp)
  | failed =>
    obtain ⟨index, stored, outside⟩ := afterMessage_lost error bounded
      (show (pipeRead error.message buffsize .failed).ret = -1 from rfl)
    exact iff_of_false (fun reports => outside (reports.1 index stored)) (by simp)
  | ready arrived =>
    have length : ((error.message.take arrived).take buffsize).length =
        min buffsize (min arrived error.message.length) := by
      simp only [List.length_take]
    have small : ((error.message.take arrived).take buffsize).length < 18446744073709551616 := by
      omega
    obtain ⟨stores, number, result, text⟩ := afterMessage_read error small
    simp only [pipeRead, PipeEvent.ready.injEq, exists_eq_left']
    rw [ReportsError, stores]
    constructor
    · rintro ⟨inside, -⟩
      have last := inside _ (List.mem_range.mpr (Nat.lt_succ_self _))
      omega
    · intro room
      refine ⟨fun index stored => ?_, number, ?_, ?_⟩
      · have within := List.mem_range.mp stored
        omega
      · have whole : (error.message.take arrived).length < buffsize := by
          rwa [List.length_take]
        rw [List.take_of_length_le (Nat.le_of_lt whole)] at text ⊢
        have same : (handedOver error.message
            (.ready available :: .ready arrived :: events)).take (buffsize - 1) =
            error.message.take arrived :=
          List.take_of_length_le (by simp only [handedOver, afterNumber, settledEvent]; omega)
        rwa [same]
      · rw [result]
        simp only [sizeofInt]
        omega

theorem readError_reports_iff (child : Option ChildError) (positive : 0 < buffsize)
    (fits : sizeofInt + buffsize < 2147483648) (gives : PipeGives events)
    (returned : readError buffsize .start (piped child) events = some read) :
    ReportsError buffsize child events read ↔ Undisturbed buffsize child events := by
  cases events with
  | nil => simp [readError] at returned
  | cons event rest =>
    cases event with
    | interrupted =>
      rw [readError_lost _ (.inl rfl), Option.some.injEq] at returned
      subst returned
      exact iff_of_false (not_reportsError_lost child) (by simp [Undisturbed])
    | failed =>
      rw [readError_lost _ (.inr rfl), Option.some.injEq] at returned
      subst returned
      exact iff_of_false (not_reportsError_lost child) (by simp [Undisturbed])
    | ready available =>
      cases child with
      | none =>
        rw [piped, readError_closed, Option.some.injEq] at returned
        subst returned
        simp [ReportsError, Undisturbed, ErrorRead.start]
      | some error =>
        cases rest with
        | nil =>
          have some : sizeofInt ≠ 0 ∧ (sizeofInt : Int) ≠ -1 := by decide
          have accepted : toSize sizeofInt = sizeofInt := by decide
          have ret : (PipeAnswer.read (intBytes error.errno)).ret = sizeofInt := rfl
          simp [readError, piped, pipeRead_number gives.1, ret, some, accepted] at returned
        | cons event rest =>
          rw [piped, readError_number gives.1, Option.some.injEq] at returned
          subst returned
          rw [reportsError_second_iff positive (by omega)]
          simp [Undisturbed]

end Read

def errorBuffSize : Nat := 128

def missingCommand : ChildError where
  errno := 2
  message := [120, 121]
  clean := by decide

theorem readError_reports_missing :
    ReportsError errorBuffSize (some missingCommand) [.ready 6, .ready 2]
      (afterMessage missingCommand (.read [120, 121])) := by
  have gives : PipeGives [.ready 6, .ready 2] := ⟨by decide, by decide⟩
  refine (readError_reports_iff (some missingCommand) (by decide) (by decide) gives
    (readError_number gives.1 (.ready 2))).mpr ⟨⟨6, rfl⟩, ?_⟩
  rintro error same
  cases same
  exact ⟨2, rfl, by decide⟩

def longCommand : ChildError where
  errno := 2
  message := List.replicate 128 120
  clean := by decide

theorem readError_reports_fails :
    ¬ ∀ (child : Option ChildError) (events : List PipeEvent) (read : ErrorRead),
      PipeGives events →
      readError errorBuffSize .start (piped child) events = some read →
      ReportsError errorBuffSize child events read := by
  intro claim
  have gives : PipeGives [.ready 132, .ready 128] := ⟨by decide, by decide⟩
  have reports := claim (some longCommand) _ _ gives (readError_number gives.1 (.ready 128))
  obtain ⟨arrived, same, room⟩ := (reportsError_second_iff (by decide) (by decide) _).mp reports
  cases same
  rw [longCommand, List.length_replicate] at room
  exact absurd room (by decide)

end Akiso.Shell
