import Akiso.Minitalk.Framing
import Akiso.Minitalk.Server

set_option autoImplicit false

namespace Akiso.Minitalk

open CString Strtol

structure UserRead where
  ret : Int
  memory : List UInt8
  removed : Bool
  rest : List ReadOutcome
  deriving DecidableEq, Repr

def storeAt (memory : List UInt8) (index : Int) (value : UInt8) : Except LineStop (List UInt8) :=
  if 0 ≤ index ∧ index < memory.length then .ok (memory.set index.toNat value)
  else .error .outside

def finishRead (len : Nat) (leaveNewline : Bool) (done : LineReturn) (ret : Int) :
    Except LineStop UserRead :=
  if ret ≤ 0 then .ok { ret := -1, memory := done.memory, removed := true, rest := done.rest }
  else do
    let memory ←
      if toSize ret < len ∧ leaveNewline = false then storeAt done.memory (ret - 1) 0
      else pure done.memory
    return { ret, memory, removed := false, rest := done.rest }

-- read_user with the memory of its buffer. The ssize_t is cut to an int, which is compared with the
-- length as a size_t.
def readUserInto (len : Nat) (buff : List UInt8) (leaveNewline : Bool)
    (outcomes : List ReadOutcome) : Except LineStop UserRead := do
  let done ← readLineInto len buff outcomes
  finishRead len leaveNewline done (toInt done.ret)

def strippedLine (len : Nat) (line : List UInt8) : List UInt8 :=
  (if line.getLast? = some newline then line.dropLast else line).take (len - 1)

def HoldsText (memory text : List UInt8) : Prop :=
  memory.take (text.length + 1) = text ++ [0]

instance (memory text : List UInt8) : Decidable (HoldsText memory text) :=
  inferInstanceAs (Decidable (_ = _))

def strippedIndex (len : Nat) (line : List UInt8) : Nat :=
  (toInt (min line.length (len - 1) : Nat) - 1).toNat

def Strippable (len : Nat) (text : List UInt8) : Prop :=
  if text.getLast? = some newline ∧ text.length < len then text.length < 2147483648
  else text[strippedIndex len text]? = some 0

instance (len : Nat) (text : List UInt8) : Decidable (Strippable len text) :=
  inferInstanceAs (Decidable (ite _ _ _))

variable {n : Nat} {before stored bytes buffer : List UInt8} {outcomes : List ReadOutcome}

theorem toInt_positive {value : Nat} (positive : 0 < toInt value) :
    (toInt value - 1).toNat < value := by
  unfold toInt at *
  rw [Int.bmod_def] at *
  split at positive <;> split <;> omega

theorem toInt_last {value : Nat} (positive : 0 < toInt value) :
    (toInt value - 1).toNat + 1 = value ↔ value < 2147483648 := by
  unfold toInt at *
  rw [Int.bmod_def] at *
  split at positive <;> split <;> omega

theorem readLine_of_lineLoop {done : LineReturn} (two : 2 ≤ n) (size : n < 18446744073709551616)
    (whole : before.length = n) (fits : stored.length ≤ n - 1)
    (returned : lineLoop n (kept before stored) outcomes = .ok done) :
    done.ret = -1 ∨ ∃ bytes, readLine n stored outcomes = some (some bytes, done.rest) := by
  fun_induction readLine n stored outcomes with
  | case1 => cases returned
  | case2 stored others ih => exact ih fits returned
  | case3 stored others =>
    cases returned
    exact .inl rfl
  | case4 stored others =>
    have read : readLine n stored (.closed :: others) = some (some stored, others) := rfl
    rw [lineLoop_kept two size whole fits read] at returned
    cases returned
    exact .inr ⟨stored, rfl⟩
  | case5 stored others =>
    have read : readLine n stored (.byte newline :: others) =
        some (some (store n stored newline), others) := by
      rw [readLine, if_pos rfl]
    rw [lineLoop_kept two size whole fits read] at returned
    cases returned
    exact .inr ⟨_, rfl⟩
  | case6 stored value others more ih =>
    rw [lineLoop, keepByte_kept two size whole fits] at returned
    simp only [bind, Except.bind, if_neg more] at returned
    exact ih (store_length value fits) returned

theorem readLineInto_kept :
    readLineInto n buffer outcomes = lineLoop n (kept buffer []) outcomes := by
  have start : kept buffer [] = { memory := buffer, offset := 0, total := 0 } := rfl
  rw [readLineInto, start]

theorem readUserInto_ok {line : LineReturn} (leaveNewline : Bool)
    (run : lineLoop n (kept buffer []) outcomes = .ok line) :
    readUserInto n buffer leaveNewline outcomes =
      finishRead n leaveNewline line (toInt line.ret) := by
  rw [readUserInto, readLineInto_kept, run]
  rfl

theorem finishRead_strips (line : LineReturn) {ret : Int} (positive : 0 < ret)
    (counted : toSize ret < n) (inside : ret - 1 < line.memory.length) :
    finishRead n false line ret =
      .ok { ret, memory := line.memory.set (ret - 1).toNat 0, removed := false
            rest := line.rest } := by
  rw [finishRead, if_neg (by omega), if_pos ⟨counted, rfl⟩, storeAt, if_pos ⟨by omega, inside⟩]
  rfl

theorem readUserInto_bytes {rest : List ReadOutcome} (two : 2 ≤ n)
    (size : n < 18446744073709551616) (whole : buffer.length = n)
    (read : readLine n [] outcomes = some (some bytes, rest)) (positive : 0 < toInt bytes.length) :
    readUserInto n buffer false outcomes =
      .ok { ret := toInt bytes.length
            memory := bytes.set (toInt bytes.length - 1).toNat 0 ++
              0 :: buffer.drop (bytes.length + 1)
            removed := false, rest } := by
  have index := toInt_positive positive
  have short : bytes.length ≤ n - 1 := readLine_length (by simp) read
  have filled : bytes ≠ [] := by
    rintro rfl
    simp at index
  have counted : toSize (toInt bytes.length) < n := by
    unfold toSize
    omega
  have memory : bufferAfter buffer bytes = bytes ++ 0 :: buffer.drop (bytes.length + 1) :=
    if_neg filled
  have inside : toInt bytes.length - 1 < (bufferAfter buffer bytes).length := by
    rw [memory, List.length_append]
    omega
  rw [readUserInto_ok false (lineLoop_kept two size whole (by simp) read)]
  dsimp only
  rw [finishRead_strips _ positive counted]
  · dsimp only
    rw [memory, List.set_append_left _ _ index]
  · exact inside

theorem readUserInto_positive {done : UserRead} (two : 2 ≤ n) (size : n < 18446744073709551616)
    (whole : buffer.length = n) (returned : readUserInto n buffer false outcomes = .ok done)
    (positive : 0 < done.ret) :
    ∃ bytes, readLine n [] outcomes = some (some bytes, done.rest) ∧
      0 < toInt bytes.length ∧
      done.memory = bytes.set (toInt bytes.length - 1).toNat 0 ++
        0 :: buffer.drop (bytes.length + 1) := by
  cases run : lineLoop n (kept buffer []) outcomes with
  | error stop => simp [readUserInto, readLineInto_kept, run, bind, Except.bind] at returned
  | ok line =>
    rw [readUserInto_ok false run] at returned
    have counted : 0 < toInt line.ret := by
      by_contra none
      rw [finishRead, if_pos (Int.not_lt.mp none), Except.ok.injEq] at returned
      simp [← returned] at positive
    rcases readLine_of_lineLoop two size whole (by simp) run with failed | ⟨bytes, read⟩
    · rw [failed] at counted
      exact absurd counted (by decide)
    · have same := run
      rw [lineLoop_kept two size whole (by simp) read, Except.ok.injEq] at same
      have total : line.ret = bytes.length := by rw [← same]
      rw [total] at counted
      have bytesLeft := readUserInto_bytes two size whole read counted
      rw [readUserInto_ok false run, returned, Except.ok.injEq] at bytesLeft
      subst bytesLeft
      exact ⟨bytes, read, counted, by dsimp only⟩

theorem set_eq_self_iff {text : List UInt8} {index : Nat} {value : UInt8}
    (inside : index < text.length) : text.set index value = text ↔ text[index]? = some value := by
  constructor
  · intro same
    rw [← same, List.getElem?_set_self inside]
  · intro there
    obtain ⟨_, rfl⟩ := List.getElem?_eq_some_iff.mp there
    exact List.set_getElem_self inside

theorem strippedLine_newline {init : List UInt8} (fits : init.length + 1 < n) :
    strippedLine n (init ++ [newline]) = init := by
  rw [strippedLine, List.getLast?_concat, if_pos rfl, List.dropLast_concat]
  exact List.take_of_length_le (by omega)

theorem strippedLine_cut {line : List UInt8}
    (cut : ¬ (line.getLast? = some newline ∧ line.length < n)) :
    strippedLine n line = line.take (n - 1) := by
  unfold strippedLine
  split
  next ended =>
    have long : n ≤ line.length := Nat.le_of_not_lt fun short => cut ⟨ended, short⟩
    rw [List.dropLast_eq_take, List.take_take, Nat.min_eq_left (by omega)]
  next => rfl

theorem set_last (init : List UInt8) (last value : UInt8) :
    (init ++ [last]).set init.length value = init ++ [value] := by
  rw [List.set_append_right _ _ (Nat.le_refl _), Nat.sub_self]
  rfl

theorem holdsText_front {init spare : List UInt8} {last : UInt8} {index : Nat}
    (inside : index ≤ init.length) (other : last ≠ 0) :
    HoldsText ((init ++ [last]).set index 0 ++ spare) init ↔ index = init.length := by
  rw [HoldsText, List.take_left' (by simp)]
  constructor
  · intro same
    by_contra apart
    rw [List.set_append_left _ _ (by omega)] at same
    exact other (by simpa using (List.append_inj same (by simp)).2)
  · rintro rfl
    exact set_last init last 0

theorem holdsText_self {text spare : List UInt8} {index : Nat} (inside : index < text.length) :
    HoldsText (text.set index 0 ++ 0 :: spare) text ↔ text[index]? = some 0 := by
  have front : (text.set index 0 ++ 0 :: spare).take (text.length + 1) =
      text.set index 0 ++ [0] := by
    rw [List.append_cons, List.take_left' (by simp)]
  rw [HoldsText, front, List.append_left_inj, set_eq_self_iff inside]

theorem holdsText_iff {line spare : List UInt8}
    (positive : 0 < toInt (min line.length (n - 1) : Nat)) :
    HoldsText ((line.take (n - 1)).set (strippedIndex n line) 0 ++ 0 :: spare)
      (strippedLine n line) ↔ Strippable n line := by
  have index : strippedIndex n line < min line.length (n - 1) := toInt_positive positive
  by_cases ended : line.getLast? = some newline ∧ line.length < n
  · rw [Strippable, if_pos ended]
    obtain ⟨⟨init, rfl⟩, short⟩ := And.imp_left List.getLast?_eq_some_iff.mp ended
    rw [List.length_append, List.length_singleton] at *
    have least : min (init.length + 1) (n - 1) = init.length + 1 := by omega
    have place : strippedIndex n (init ++ [newline]) =
        (toInt (init.length + 1 : Nat) - 1).toNat := by
      rw [strippedIndex, List.length_append, List.length_singleton, least]
    rw [least] at positive index
    rw [strippedLine_newline short, List.take_of_length_le (by simp; omega),
      holdsText_front (by omega) (by decide), ← toInt_last positive, place]
    omega
  · have inside : strippedIndex n line < (line.take (n - 1)).length := by
      rw [List.length_take]
      omega
    rw [Strippable, if_neg ended, strippedLine_cut ended, holdsText_self inside,
      List.getElem?_take_of_lt (by omega)]

theorem strippable_iff {text : List UInt8} (two : 2 ≤ n) (size : n ≤ 2147483648) :
    Strippable n text ↔ (text.getLast? = some newline ∧ text.length < n) ∨
      (text.take (n - 1)).getLast? = some 0 := by
  have index : strippedIndex n text = min text.length (n - 1) - 1 := by
    have small : toInt (min text.length (n - 1) : Nat) = (min text.length (n - 1) : Nat) :=
      toInt_of_fits ⟨by omega, by omega⟩
    rw [strippedIndex, small]
    omega
  have last : (text.take (n - 1)).getLast? = text[strippedIndex n text]? := by
    rw [List.getLast?_eq_getElem?, List.length_take, Nat.min_comm, index]
    exact List.getElem?_take_of_lt (by omega)
  rw [Strippable, last]
  by_cases ended : text.getLast? = some newline ∧ text.length < n
  · rw [if_pos ended]
    exact ⟨fun _ => .inl ended, fun _ => by omega⟩
  · rw [if_neg ended]
    exact ⟨.inr, fun either => either.resolve_left ended⟩

theorem readUser_memory {server next : Server} {slot : Slot} {conn : ConnId} {text : List UInt8}
    (whole : buffer.length = bufferSize)
    (connected : server.connection (server.loggedIn slot).fd = some conn)
    (returned : readUser server slot false = some (next, some text)) :
    ∃ done, readUserInto bufferSize buffer false (server.inbox conn) = .ok done ∧
      done.ret = text.length ∧ done.memory.take text.length = text ∧
      next = consume server conn done.rest := by
  simp only [readUser, connected] at returned
  split at returned
  next => simp at returned
  next => simp at returned
  next => simp at returned
  next bytes rest filled read =>
    have short : bytes.length ≤ 255 := readLine_length (by simp) read
    obtain ⟨init, last, rfl⟩ := (List.eq_nil_or_concat bytes).resolve_left filled
    rw [List.concat_eq_append] at *
    rw [List.length_append, List.length_singleton] at short
    have counted : toInt (init ++ [last]).length = (init ++ [last]).length := by
      rw [List.length_append, List.length_singleton]
      exact toInt_of_fits ⟨by omega, by omega⟩
    have within : (init ++ [last]).length < bufferSize := by
      simp [bufferSize]
      omega
    simp only [within, and_self, if_true, Option.some.injEq, Prod.mk.injEq,
      List.dropLast_concat] at returned
    obtain ⟨rfl, rfl⟩ := returned
    refine ⟨_, readUserInto_bytes (by decide) (by decide) whole read ?_, ?_, ?_, rfl⟩
    · rw [counted]
      simp
    · simpa using counted
    · have index : (toInt (init ++ [last]).length - 1).toNat = init.length := by
        rw [counted]
        simp
      dsimp only
      rw [index, set_last, List.take_left]

/-- read_user strips a line exactly when the byte it overwrites is the newline or a NUL: of a line
longer than the buffer, and of one that ends at the end of file, it removes a byte. -/
theorem readUserInto_strips_iff {done : UserRead} (two : 2 ≤ n)
    (size : n < 18446744073709551616) (whole : buffer.length = n)
    (returned : readUserInto n buffer false outcomes = .ok done) (positive : 0 < done.ret) :
    HoldsText done.memory (strippedLine n (nextLine outcomes)) ↔
      Strippable n (nextLine outcomes) := by
  obtain ⟨bytes, read, counted, memory⟩ := readUserInto_positive two size whole returned positive
  have takes : bytes = (nextLine outcomes).take (n - 1) := by
    simpa using readLine_takes (by simp) read
  have length : bytes.length = min (nextLine outcomes).length (n - 1) := by
    rw [takes, List.length_take, Nat.min_comm]
  rw [length] at counted
  rw [memory, length, ← strippedIndex, takes]
  exact holdsText_iff counted

theorem readUserInto_strips_iff_named :
    ∃ done, readUserInto 4 [7, 7, 7, 7] false [.byte 97, .byte 98, .byte 10] = .ok done ∧
      (HoldsText done.memory (strippedLine 4 [97, 98, 10]) ↔ Strippable 4 [97, 98, 10]) := by
  have whole : ([7, 7, 7, 7] : List UInt8).length = 4 := rfl
  have returned : readUserInto 4 [7, 7, 7, 7] false [.byte 97, .byte 98, .byte 10] =
      .ok { ret := 3, memory := [97, 98, 0, 0], removed := false, rest := [] } := rfl
  exact ⟨_, returned, readUserInto_strips_iff (by decide) (by decide) whole returned (by decide)⟩

theorem readUserInto_cuts :
    ¬ ∀ (n : Nat) (buffer : List UInt8) (outcomes : List ReadOutcome) (done : UserRead), 2 ≤ n →
      n < 18446744073709551616 → buffer.length = n →
      readUserInto n buffer false outcomes = .ok done → 0 < done.ret →
      HoldsText done.memory (strippedLine n (nextLine outcomes)) := by
  intro claim
  have read : readLine 256 [] [.byte 97, .byte 98, .closed] = some (some [97, 98], []) := rfl
  have whole : (List.replicate 256 (7 : UInt8)).length = 256 := List.length_replicate
  have returned := readUserInto_bytes (by decide) (by decide) whole read (by decide)
  have holds := claim 256 _ _ _ (by decide) (by decide) whole returned (by decide)
  exact absurd holds (by decide)

end Akiso.Minitalk
