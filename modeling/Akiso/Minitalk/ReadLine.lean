import Mathlib.Data.List.Basic

set_option autoImplicit false

namespace Akiso.Minitalk

inductive ReadOutcome where
  | byte (value : UInt8)
  | interrupted
  | closed
  | error
  deriving DecidableEq, Repr

def newline : UInt8 := 10

def bufferSize : Nat := 256

def clientBufferSize : Nat := 1024

def bytesOf : List ReadOutcome → List UInt8
  | [] => []
  | .byte value :: rest => value :: bytesOf rest
  | _ :: rest => bytesOf rest

-- read_line stores at most n - 1 bytes and drops the rest of the line.
def store (n : Nat) (stored : List UInt8) (value : UInt8) : List UInt8 :=
  if stored.length < n - 1 then stored ++ [value] else stored

-- read_line of the server on the outcomes its reads will have. The result is what is stored, its
-- length being the return value, or none for -1; without a result the call is still blocked.
def readLine (n : Nat) : List UInt8 → List ReadOutcome →
    Option (Option (List UInt8) × List ReadOutcome)
  | _, [] => none
  | stored, .interrupted :: rest => readLine n stored rest
  | _, .error :: rest => some (none, rest)
  | stored, .closed :: rest => some (some stored, rest)
  | stored, .byte value :: rest =>
    if value = newline then some (some (store n stored value), rest)
    else readLine n (store n stored value) rest

-- read_line of the client, which gives up when it is interrupted.
def clientReadLine (n : Nat) : List UInt8 → List ReadOutcome →
    Option (Option (List UInt8) × List ReadOutcome)
  | _, [] => none
  | _, .interrupted :: rest => some (none, rest)
  | _, .error :: rest => some (none, rest)
  | stored, .closed :: rest => some (some stored, rest)
  | stored, .byte value :: rest =>
    if value = newline then some (some (store n stored value), rest)
    else clientReadLine n (store n stored value) rest

def nextLine : List ReadOutcome → List UInt8
  | [] => []
  | .interrupted :: rest => nextLine rest
  | .error :: _ => []
  | .closed :: _ => []
  | .byte value :: rest => if value = newline then [value] else value :: nextLine rest

@[simp] theorem bytesOf_append (first second : List ReadOutcome) :
    bytesOf (first ++ second) = bytesOf first ++ bytesOf second := by
  induction first with
  | nil => rfl
  | cons outcome rest ih =>
    cases outcome with
    | byte value => simp [bytesOf, ih]
    | interrupted => simpa [bytesOf] using ih
    | closed => simpa [bytesOf] using ih
    | error => simpa [bytesOf] using ih

theorem readLine_consumes {n : Nat} {stored : List UInt8} {outcomes rest : List ReadOutcome}
    {result : Option (List UInt8)} (returned : readLine n stored outcomes = some (result, rest)) :
    bytesOf outcomes = nextLine outcomes ++ bytesOf rest := by
  fun_induction readLine n stored outcomes with
  | case1 => simp at returned
  | case2 stored rest ih => simpa [bytesOf, nextLine] using ih returned
  | case3 =>
    cases returned
    simp [bytesOf, nextLine]
  | case4 =>
    cases returned
    simp [bytesOf, nextLine]
  | case5 =>
    cases returned
    simp [bytesOf, nextLine]
  | case6 stored value rest more ih => simpa [bytesOf, nextLine, more] using ih returned

theorem store_fits {n : Nat} {stored : List UInt8} (value : UInt8) (fits : stored.length + 1 < n) :
    store n stored value = stored ++ [value] :=
  if_pos (by omega)

theorem store_eq (n : Nat) (stored : List UInt8) (value : UInt8) (fits : stored.length ≤ n - 1) :
    store n stored value = (stored ++ [value]).take (n - 1) := by
  unfold store
  split
  next room => rw [List.take_of_length_le (by simp; omega)]
  next full => rw [List.take_left' (by omega)]

theorem take_store (n : Nat) (stored rest : List UInt8) (value : UInt8)
    (fits : stored.length ≤ n - 1) :
    (store n stored value ++ rest).take (n - 1) = (stored ++ value :: rest).take (n - 1) := by
  unfold store
  split
  next => simp
  next full => rw [List.take_left' (by omega), List.take_left' (by omega)]

theorem store_length {n : Nat} {stored : List UInt8} (value : UInt8)
    (fits : stored.length ≤ n - 1) : (store n stored value).length ≤ n - 1 := by
  unfold store
  split
  next => simp; omega
  next => exact fits

theorem readLine_takes {n : Nat} {stored bytes : List UInt8} {outcomes rest : List ReadOutcome}
    (fits : stored.length ≤ n - 1)
    (returned : readLine n stored outcomes = some (some bytes, rest)) :
    bytes = (stored ++ nextLine outcomes).take (n - 1) := by
  fun_induction readLine n stored outcomes with
  | case1 => simp at returned
  | case2 stored rest ih => exact ih fits returned
  | case3 => simp at returned
  | case4 =>
    cases returned
    simp [nextLine, List.take_of_length_le fits]
  | case5 =>
    cases returned
    simp only [nextLine, if_true]
    exact store_eq n _ newline fits
  | case6 stored value rest more ih =>
    have next := ih (store_length value fits) returned
    rw [take_store n stored _ value fits] at next
    simpa [nextLine, more] using next

theorem readLine_stores {n : Nat} {stored bytes : List UInt8} {outcomes rest : List ReadOutcome}
    (fits : stored.length + (nextLine outcomes).length < n)
    (returned : readLine n stored outcomes = some (some bytes, rest)) :
    bytes = stored ++ nextLine outcomes := by
  have takes := readLine_takes (by omega) returned
  rwa [List.take_of_length_le (by rw [List.length_append]; omega)] at takes

theorem readLine_length {n : Nat} {stored bytes : List UInt8} {outcomes rest : List ReadOutcome}
    (fits : stored.length ≤ n - 1)
    (returned : readLine n stored outcomes = some (some bytes, rest)) : bytes.length ≤ n - 1 := by
  rw [readLine_takes fits returned]
  exact List.length_take_le ..

theorem newline_last (outcomes : List ReadOutcome) : newline ∉ (nextLine outcomes).dropLast := by
  fun_induction nextLine outcomes with
  | case1 => simp
  | case2 rest ih => exact ih
  | case3 => simp
  | case4 => simp
  | case5 => simp
  | case6 value rest more ih =>
    cases following : nextLine rest with
    | nil => simp
    | cons next others =>
      rw [following] at ih
      simp only [List.dropLast_cons_cons, List.mem_cons, not_or]
      exact ⟨Ne.symm more, ih⟩

theorem clientReadLine_line {n : Nat} {stored line : List UInt8} (plain : newline ∉ line)
    (fits : stored.length + line.length + 1 < n) :
    clientReadLine n stored ((line ++ [newline]).map .byte) =
      some (some (stored ++ line ++ [newline]), []) := by
  induction line generalizing stored with
  | nil =>
    simp only [List.length_nil] at fits
    simp [clientReadLine, store_fits newline (show stored.length + 1 < n by omega)]
  | cons value rest ih =>
    simp only [List.mem_cons, not_or] at plain
    simp only [List.length_cons] at fits
    have next := store_fits value (show stored.length + 1 < n by omega)
    have room : (stored ++ [value]).length + rest.length + 1 < n := by
      simp only [List.length_append, List.length_singleton]
      omega
    have tail := ih plain.2 room
    simpa [clientReadLine, Ne.symm plain.1, next] using tail

end Akiso.Minitalk
