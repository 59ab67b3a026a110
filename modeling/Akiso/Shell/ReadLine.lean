import Akiso.Shell.Parser

set_option autoImplicit false

namespace Akiso.Shell

open CString

/-- What one turn of the loop of read_line_internal meets: the canceler set, or the answer of read.
At the end of the file read answers with no bytes. -/
inductive ReadTurn where
  | canceled
  | interrupted
  | failed
  | read (bytes : List UInt8)
  deriving DecidableEq, Repr

structure ReadRequest where
  offset : Nat
  count : Nat
  deriving DecidableEq, Repr

/-- read_line_internal in progress. `stored` are the cells from buffer up to ptr, `indices` the
cells the test for the newline has looked at, and `received` is all that read has delivered; the
result is the buffer up to its NUL, or none for NULL. -/
structure LineRead where
  stored : List UInt8
  bytesRead : Nat
  requests : List ReadRequest
  indices : List Int
  received : List UInt8
  result : Option (Option (List UInt8))
  deriving DecidableEq, Repr

namespace LineRead

def initial : LineRead :=
  { stored := [], bytesRead := 0, requests := [], indices := [], received := [], result := none }

def ask (size : Nat) (state : LineRead) : LineRead :=
  { state with
    requests := state.requests ++ [⟨state.stored.length, size - state.bytesRead⟩] }

-- One read moves at most 0x7ffff000 bytes, so that what it returns fits the int.
def take (size : Nat) (state : LineRead) (bytes : List UInt8) : LineRead :=
  let state := { state with received := state.received ++ bytes }
  if bytes = [] ∧ state.stored = [] then { state with result := some none }
  else
    let stored := state.stored ++ bytes
    let state := { state with indices := state.indices ++ [(stored.length : Int) - 1] }
    if stored.getLast? = some newline ∨ size ≤ state.bytesRead then
      { state with
        stored := stored.dropLast ++ [0]
        result := some (some (stored.dropLast ++ [0])) }
    else { state with stored }

def turn (size : Nat) (state : LineRead) : ReadTurn → LineRead
  | .canceled => { state with result := some none }
  | .interrupted => state.ask size
  | .failed => { state.ask size with result := some none }
  | .read bytes => (state.ask size).take size bytes

end LineRead

def readLineFrom (size : Nat) : LineRead → List ReadTurn → LineRead
  | state, [] => state
  | state, turn :: rest =>
    let next := state.turn size turn
    if next.result.isSome then next else readLineFrom size next rest

def readLineInternal (size : Nat) (turns : List ReadTurn) : LineRead :=
  readLineFrom size .initial turns

def commandLine (size : Nat) (received : List UInt8) : List UInt8 :=
  (if received.getLast? = some newline then received.dropLast else received).take (size - 1)

structure LineRead.Sound (size : Nat) (state : LineRead) : Prop where
  stores : ∀ request ∈ state.requests, request.offset + request.count ≤ size
  looks : ∀ index ∈ state.indices, 0 ≤ index
  returns : ∀ buffer, state.result = some (some buffer) →
    ∃ rest, buffer = commandLine size state.received ++ 0 :: rest

def FirstReadEnds : List ReadTurn → Prop
  | [] => True
  | .interrupted :: rest => FirstReadEnds rest
  | .read bytes :: rest =>
    bytes = [] ∨ bytes.getLast? = some newline ∨ ∀ next ∈ rest.head?, next = .canceled
  | _ :: _ => True

@[simp] theorem LineRead.ask_stored (size : Nat) (state : LineRead) :
    (state.ask size).stored = state.stored := rfl

@[simp] theorem LineRead.take_requests (size : Nat) (state : LineRead) (bytes : List UInt8) :
    (state.take size bytes).requests = state.requests := by
  unfold take
  dsimp only
  split
  next => rfl
  next => split <;> rfl

@[simp] theorem LineRead.take_bytesRead (size : Nat) (state : LineRead) (bytes : List UInt8) :
    (state.take size bytes).bytesRead = state.bytesRead := by
  unfold take
  dsimp only
  split
  next => rfl
  next => split <;> rfl

section Turns

variable {size : Nat} {state : LineRead}

theorem LineRead.take_looks (bytes : List UInt8) (looks : ∀ index ∈ state.indices, 0 ≤ index) :
    ∀ index ∈ (state.take size bytes).indices, 0 ≤ index := by
  unfold take
  dsimp only
  split
  next => exact looks
  next some =>
    have long : 0 < (state.stored ++ bytes).length := by
      apply List.length_pos_iff.mpr
      intro empty
      rw [List.append_eq_nil_iff] at empty
      exact some ⟨empty.2, empty.1⟩
    have looked : ∀ index ∈ state.indices ++ [((state.stored ++ bytes).length : Int) - 1],
        0 ≤ index := by
      intro index member
      rcases List.mem_append.mp member with before | last
      · exact looks index before
      · rw [List.mem_singleton.mp last]
        omega
    split <;> exact looked

theorem LineRead.turn_looks (turn : ReadTurn) (looks : ∀ index ∈ state.indices, 0 ≤ index) :
    ∀ index ∈ (state.turn size turn).indices, 0 ≤ index := by
  cases turn with
  | canceled => exact looks
  | interrupted => exact looks
  | failed => exact looks
  | read bytes => exact take_looks bytes looks

theorem LineRead.turn_requests (turn : ReadTurn) {request : ReadRequest}
    (asked : request ∈ state.requests) : request ∈ (state.turn size turn).requests := by
  have kept : request ∈ (state.ask size).requests := List.mem_append_left _ asked
  cases turn with
  | canceled => exact asked
  | interrupted => exact kept
  | failed => exact kept
  | read bytes => simpa [turn] using kept

theorem LineRead.turn_asks {turn : ReadTurn} (reads : turn ≠ .canceled) :
    ⟨state.stored.length, size - state.bytesRead⟩ ∈ (state.turn size turn).requests := by
  have asked : ⟨state.stored.length, size - state.bytesRead⟩ ∈ (state.ask size).requests :=
    List.mem_append_right _ (List.mem_singleton_self _)
  cases turn with
  | canceled => exact absurd rfl reads
  | interrupted => exact asked
  | failed => exact asked
  | read bytes => simpa [turn] using asked

theorem readLineFrom_cons (turn : ReadTurn) (rest : List ReadTurn) :
    readLineFrom size state (turn :: rest) =
      if (state.turn size turn).result.isSome then state.turn size turn
      else readLineFrom size (state.turn size turn) rest := rfl

theorem readLineFrom_returned {turn : ReadTurn} (rest : List ReadTurn)
    {result : Option (List UInt8)} (returned : (state.turn size turn).result = some result) :
    readLineFrom size state (turn :: rest) = state.turn size turn := by
  rw [readLineFrom_cons]
  simp [returned]

theorem readLineFrom_running {turn : ReadTurn} (rest : List ReadTurn)
    (running : (state.turn size turn).result = none) :
    readLineFrom size state (turn :: rest) = readLineFrom size (state.turn size turn) rest := by
  rw [readLineFrom_cons]
  simp [running]

theorem readLineFrom_requests (turns : List ReadTurn) {request : ReadRequest}
    (asked : request ∈ state.requests) : request ∈ (readLineFrom size state turns).requests := by
  induction turns generalizing state with
  | nil => exact asked
  | cons turn rest ih =>
    rw [readLineFrom_cons]
    split
    next => exact LineRead.turn_requests turn asked
    next => exact ih (LineRead.turn_requests turn asked)

theorem readLineFrom_looks (turns : List ReadTurn)
    (looks : ∀ index ∈ state.indices, 0 ≤ index) :
    ∀ index ∈ (readLineFrom size state turns).indices, 0 ≤ index := by
  induction turns generalizing state with
  | nil => exact looks
  | cons turn rest ih =>
    rw [readLineFrom_cons]
    split
    next => exact LineRead.turn_looks turn looks
    next => exact ih (LineRead.turn_looks turn looks)

end Turns

theorem readLineInternal_looks (size : Nat) (turns : List ReadTurn) :
    ∀ index ∈ (readLineInternal size turns).indices, 0 ≤ index :=
  readLineFrom_looks turns (by simp [LineRead.initial])

structure LineRead.Waiting (size : Nat) (state : LineRead) : Prop where
  uncounted : state.bytesRead = 0
  fits : ∀ request ∈ state.requests, request.offset + request.count ≤ size
  looks : ∀ index ∈ state.indices, 0 ≤ index
  running : state.result = none

section Waiting

variable {size : Nat} {state : LineRead}

theorem LineRead.Waiting.sound (waiting : state.Waiting size) : state.Sound size where
  stores := waiting.fits
  looks := waiting.looks
  returns := by simp [waiting.running]

theorem LineRead.Waiting.ask (waiting : state.Waiting size) (empty : state.stored = []) :
    (state.ask size).Waiting size where
  uncounted := waiting.uncounted
  fits := by
    intro request member
    rcases List.mem_append.mp member with before | last
    · exact waiting.fits request before
    · rw [List.mem_singleton.mp last, empty]
      simp
  looks := waiting.looks
  running := waiting.running

theorem LineRead.Waiting.stop (waiting : state.Waiting size) :
    ({ state with result := some none } : LineRead).Sound size where
  stores := waiting.fits
  looks := waiting.looks
  returns := by simp

theorem LineRead.Waiting.partial_iff (waiting : state.Waiting size) (filled : state.stored ≠ [])
    (turns : List ReadTurn) : (readLineFrom size state turns).Sound size ↔
      ∀ next ∈ turns.head?, next = .canceled := by
  cases turns with
  | nil => simpa [readLineFrom] using waiting.sound
  | cons turn rest =>
    simp only [List.head?_cons, Option.mem_def, Option.some.injEq, forall_eq']
    constructor
    · intro sound
      by_contra reads
      have asked : ⟨state.stored.length, size - state.bytesRead⟩ ∈
          (readLineFrom size state (turn :: rest)).requests := by
        rw [readLineFrom_cons]
        split
        next => exact turn_asks reads
        next => exact readLineFrom_requests rest (turn_asks reads)
      have fits : state.stored.length + (size - state.bytesRead) ≤ size := sound.stores _ asked
      have long := List.length_pos_iff.mpr filled
      rw [waiting.uncounted] at fits
      omega
    · rintro rfl
      simpa [readLineFrom_cons, turn] using waiting.stop

theorem LineRead.Waiting.ended (waiting : state.Waiting size) (front : List UInt8)
    (fits : front.length < size) (empty : state.stored = []) (fresh : state.received = []) :
    (state.take size (front ++ [newline])).result = some (some (front ++ [0])) ∧
      (state.take size (front ++ [newline])).Sound size := by
  have cut : front.take (size - 1) = front := List.take_of_length_le (by omega)
  have result : (state.take size (front ++ [newline])).result = some (some (front ++ [0])) := by
    simp [take, empty]
  constructor
  · exact result
  · constructor
    · simpa using waiting.fits
    · exact take_looks _ waiting.looks
    · intro buffer returned
      rw [result, Option.some.injEq, Option.some.injEq] at returned
      have received : (state.take size (front ++ [newline])).received = front ++ [newline] := by
        simp [take, empty, fresh]
      rw [received, commandLine, List.getLast?_concat, if_pos rfl, List.dropLast_concat, cut]
      exact ⟨[], returned.symm⟩

theorem LineRead.Waiting.begun (waiting : state.Waiting size) (positive : 0 < size)
    {bytes : List UInt8} (filled : bytes ≠ []) (more : bytes.getLast? ≠ some newline)
    (empty : state.stored = []) : (state.take size bytes).Waiting size ∧
      (state.take size bytes).stored = bytes := by
  have uncounted := waiting.uncounted
  have taken : state.take size bytes =
      { state with received := state.received ++ bytes, stored := bytes,
                   indices := state.indices ++ [(bytes.length : Int) - 1] } := by
    simp [take, empty, filled, more, uncounted, positive.ne']
  constructor
  · constructor
    · simpa using uncounted
    · simpa using waiting.fits
    · exact take_looks bytes waiting.looks
    · rw [taken]
      exact waiting.running
  · rw [taken]

theorem LineRead.Waiting.opening_iff (waiting : state.Waiting size) (positive : 0 < size)
    (empty : state.stored = []) (fresh : state.received = []) (turns : List ReadTurn)
    (answers : ∀ bytes, ReadTurn.read bytes ∈ turns → bytes.length ≤ size) :
    (readLineFrom size state turns).Sound size ↔ FirstReadEnds turns := by
  induction turns generalizing state with
  | nil => exact iff_of_true waiting.sound trivial
  | cons turn rest ih =>
    have asked := waiting.ask empty
    cases turn with
    | canceled =>
      rw [readLineFrom_returned rest rfl]
      exact iff_of_true waiting.stop trivial
    | failed =>
      rw [readLineFrom_returned rest rfl]
      exact iff_of_true asked.stop trivial
    | interrupted =>
      have running : (state.turn size .interrupted).result = none := waiting.running
      rw [readLineFrom_running rest running]
      apply ih asked empty fresh
      intro bytes member
      exact answers bytes (List.mem_cons_of_mem _ member)
    | read bytes =>
      have fits := answers bytes (List.mem_cons_self ..)
      unfold FirstReadEnds
      by_cases closed : bytes = []
      next =>
        have stopped : state.turn size (.read bytes) =
            { state.ask size with result := some none } := by
          simp [turn, take, empty, closed]
        rw [readLineFrom_returned rest (by rw [stopped]), stopped]
        exact iff_of_true asked.stop (Or.inl closed)
      next =>
        rw [or_iff_right closed]
        by_cases ends : bytes.getLast? = some newline
        next =>
          obtain ⟨front, rfl⟩ := List.getLast?_eq_some_iff.mp ends
          rw [List.length_append, List.length_singleton] at fits
          obtain ⟨returned, sound⟩ := asked.ended front (by omega) empty fresh
          have stops : (state.turn size (.read (front ++ [newline]))).result = _ := returned
          rw [readLineFrom_returned rest stops]
          exact iff_of_true sound (Or.inl ends)
        next =>
          obtain ⟨begun, stored⟩ := asked.begun positive closed ends empty
          have running : (state.turn size (.read bytes)).result = none := begun.running
          rw [readLineFrom_running rest running, or_iff_right ends]
          exact begun.partial_iff (stored.symm ▸ closed) rest

end Waiting

theorem readLineInternal_sound_iff (size : Nat) (positive : 0 < size) (turns : List ReadTurn)
    (answers : ∀ bytes, ReadTurn.read bytes ∈ turns → bytes.length ≤ size) :
    (readLineInternal size turns).Sound size ↔ FirstReadEnds turns := by
  have waiting : LineRead.initial.Waiting size := {
    uncounted := rfl
    fits := by simp [LineRead.initial]
    looks := by simp [LineRead.initial]
    running := rfl
  }
  exact waiting.opening_iff positive rfl rfl turns answers

theorem commandLine_length (size : Nat) (received : List UInt8) :
    (commandLine size received).length ≤ size - 1 := by
  unfold commandLine
  exact List.length_take_le ..

theorem LineRead.Sound.line {state : LineRead} (sound : state.Sound buffSize)
    {buffer : List UInt8} (returned : state.result = some (some buffer)) :
    ∃ line : Line, line.bytes = cstring buffer := by
  obtain ⟨rest, rfl⟩ := sound.returns buffer returned
  have short := commandLine_length buffSize state.received
  have within : (cstring (commandLine buffSize state.received)).length ≤
      (commandLine buffSize state.received).length := (List.takeWhile_sublist _).length_le
  have room : 0 < buffSize := by decide
  rw [cstring_cut]
  exact ⟨⟨_, cstring_clean _, by omega⟩, rfl⟩

theorem readLineInternal_sound_interrupted :
    (readLineInternal 4 [.interrupted, .read [108, 115, newline]]).Sound 4 := by
  apply (readLineInternal_sound_iff 4 (by decide) _ _).mpr
  · simp [FirstReadEnds, newline]
  · intro bytes member
    simp at member
    simp [member]

theorem readLineInternal_sound_fails :
    ¬ ∀ (size : Nat) (turns : List ReadTurn), 0 < size →
      (∀ bytes, ReadTurn.read bytes ∈ turns → bytes.length ≤ size) →
      (readLineInternal size turns).Sound size := by
  intro sound
  have short : ∀ bytes, ReadTurn.read bytes ∈ [ReadTurn.read [108, 115], .read [newline]] →
      bytes.length ≤ 4 := by
    intro bytes member
    simp only [List.mem_cons, ReadTurn.read.injEq, List.not_mem_nil, or_false] at member
    rcases member with rfl | rfl <;> decide
  have parts := sound 4 [.read [108, 115], .read [newline]] (by decide) short
  exact absurd (parts.stores ⟨2, 4⟩ (by decide)) (by decide)

end Akiso.Shell
