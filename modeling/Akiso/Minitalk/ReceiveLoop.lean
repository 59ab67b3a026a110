import Mathlib.Data.List.Basic

set_option autoImplicit false

namespace Akiso.Minitalk

structure Received where
  bytes : List UInt8
  some : 0 < bytes.length
  fits : bytes.length ≤ 10
  deriving DecidableEq

inductive ServerRead where
  | data (received : Received)
  | closed
  | failed (errno : Nat)
  deriving DecidableEq

namespace ServerRead

def ret : ServerRead → Int
  | data received => received.bytes.length
  | closed => 0
  | failed _ => -1

def bytes : ServerRead → List UInt8
  | data received => received.bytes
  | closed => []
  | failed _ => []

-- errno after the read; only a read that fails sets it.
def errno (before : Nat) : ServerRead → Nat
  | data _ => before
  | closed => before
  | failed errno => errno

end ServerRead

def eintr : Nat := 4

inductive Receiving where
  | reading (output : List UInt8)
  | left (output : List UInt8) (unread : List ServerRead)
  deriving DecidableEq

def receiveLoop (errno : Nat) (output : List UInt8) : List ServerRead → Receiving
  | [] => .reading output
  | read :: rest =>
    let errno := read.errno errno
    if 0 < read.ret ∨ errno = eintr then
      receiveLoop errno (if 0 < read.ret then output ++ read.bytes else output) rest
    else .left output rest

def ServerRead.goesOn : ServerRead → Bool
  | data _ => true
  | closed => false
  | failed errno => errno = eintr

-- What the loop is for: everything up to the end of file, or to an error.
def shouldReceive (reads : List ServerRead) : Receiving :=
  match reads.dropWhile ServerRead.goesOn with
  | [] => .reading (reads.flatMap ServerRead.bytes)
  | _ :: unread =>
    .left ((reads.takeWhile ServerRead.goesOn).flatMap ServerRead.bytes) unread

-- The reads come to the end of file with EINTR in errno from before.
def StaleEnd (errno : Nat) (reads : List ServerRead) : Prop :=
  (reads.dropWhile ServerRead.goesOn).head? = some .closed ∧
    (errno = eintr ∨ .failed eintr ∈ reads.takeWhile ServerRead.goesOn)

def Receiving.prepend (before : List UInt8) : Receiving → Receiving
  | reading output => reading (before ++ output)
  | left output unread => left (before ++ output) unread

variable {errno : Nat} {output : List UInt8} {read : ServerRead}
  {reads rest unread : List ServerRead}

theorem Receiving.prepend_inj (before : List UInt8) (first second : Receiving) :
    first.prepend before = second.prepend before ↔ first = second := by
  cases first <;> cases second <;> simp [prepend]

theorem receiveLoop_prepend (errno : Nat) (before output : List UInt8) (reads : List ServerRead) :
    receiveLoop errno (before ++ output) reads =
      (receiveLoop errno output reads).prepend before := by
  induction reads generalizing errno output with
  | nil => rfl
  | cons read rest ih =>
    by_cases positive : 0 < read.ret
    · simp only [receiveLoop, positive, true_or, if_true, List.append_assoc, ih]
    · by_cases again : read.errno errno = eintr
      · simp only [receiveLoop, positive, again, or_true, if_true, if_false, ih]
      · simp only [receiveLoop, positive, again, or_self, if_false, Receiving.prepend]

theorem receiveLoop_goesOn (on : read.goesOn = true) :
    receiveLoop errno [] (read :: rest) =
      (receiveLoop (read.errno errno) [] rest).prepend read.bytes := by
  rw [← receiveLoop_prepend]
  cases read with
  | data received =>
    simp [receiveLoop, ServerRead.ret, ServerRead.bytes, received.some]
  | closed => cases on
  | failed error =>
    have same : error = eintr := by simpa [ServerRead.goesOn] using on
    simp [receiveLoop, ServerRead.ret, ServerRead.bytes, ServerRead.errno, same]

theorem shouldReceive_goesOn (on : read.goesOn = true) :
    shouldReceive (read :: rest) = (shouldReceive rest).prepend read.bytes := by
  simp only [shouldReceive, List.dropWhile_cons_of_pos on, List.takeWhile_cons_of_pos on,
    List.flatMap_cons]
  cases rest.dropWhile ServerRead.goesOn <;> rfl

theorem staleEnd_goesOn (on : read.goesOn = true) :
    StaleEnd errno (read :: rest) ↔ StaleEnd (read.errno errno) rest := by
  have interrupted : read.errno errno = eintr ↔ errno = eintr ∨ ServerRead.failed eintr = read := by
    cases read with
    | data received => simp [ServerRead.errno]
    | closed => cases on
    | failed error =>
      have same : error = eintr := by simpa [ServerRead.goesOn] using on
      simp [ServerRead.errno, same]
  simp only [StaleEnd, List.dropWhile_cons_of_pos on, List.takeWhile_cons_of_pos on,
    List.mem_cons, interrupted, or_assoc]

theorem receiveLoop_unread {before : List UInt8}
    (left : receiveLoop errno before reads = .left output unread) :
    unread.length < reads.length := by
  induction reads generalizing errno before with
  | nil => cases left
  | cons read rest ih =>
    by_cases again : 0 < read.ret ∨ read.errno errno = eintr
    · simp only [receiveLoop, again, if_true] at left
      exact Nat.lt_succ_of_lt (ih left)
    · simp only [receiveLoop, again, if_false, Receiving.left.injEq] at left
      rw [left.2]
      exact Nat.lt_succ_self _

theorem receiveLoop_iff (errno : Nat) (reads : List ServerRead) :
    receiveLoop errno [] reads = shouldReceive reads ↔ ¬ StaleEnd errno reads := by
  induction reads generalizing errno with
  | nil => simp [receiveLoop, shouldReceive, StaleEnd]
  | cons read rest ih =>
    by_cases on : read.goesOn = true
    · rw [receiveLoop_goesOn on, shouldReceive_goesOn on, Receiving.prepend_inj, ih,
        staleEnd_goesOn on]
    · have ends : shouldReceive (read :: rest) = .left [] rest := by
        simp [shouldReceive, on]
      have stale : StaleEnd errno (read :: rest) ↔ read = .closed ∧ errno = eintr := by
        simp [StaleEnd, on]
      rw [ends, stale]
      cases read with
      | data received => exact absurd rfl on
      | failed error =>
        have other : error ≠ eintr := by simpa [ServerRead.goesOn] using on
        simp [receiveLoop, ServerRead.ret, ServerRead.errno, other]
      | closed =>
        by_cases interrupted : errno = eintr
        · -- The loop goes on, and cannot leave all the rest unread.
          have goes : receiveLoop errno [] (.closed :: rest) = receiveLoop errno [] rest := by
            simp [receiveLoop, ServerRead.ret, ServerRead.errno, interrupted]
          rw [goes]
          refine iff_of_false (fun same => ?_) (by simp [interrupted])
          exact absurd (receiveLoop_unread same) (Nat.lt_irrefl _)
        · simp [receiveLoop, ServerRead.ret, ServerRead.errno, interrupted]

theorem receiveLoop_spins (errno count : Nat) :
    receiveLoop errno [] (.failed eintr :: List.replicate count .closed) = .reading [] := by
  have idle : receiveLoop eintr [] (List.replicate count .closed) = .reading [] := by
    induction count with
    | zero => rfl
    | succ count ih =>
      simpa [List.replicate_succ, receiveLoop, ServerRead.ret, ServerRead.errno] using ih
  rw [receiveLoop_goesOn rfl, ServerRead.errno, idle]
  rfl

theorem receiveLoop_fails :
    ¬ ∀ (errno : Nat) (reads : List ServerRead),
      receiveLoop errno [] reads = shouldReceive reads := by
  intro claim
  have spins := receiveLoop_spins 0 1
  rw [claim] at spins
  cases spins

end Akiso.Minitalk
