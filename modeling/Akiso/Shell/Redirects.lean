import Akiso.Shared.Descriptors
import Akiso.Shell.Parser

set_option autoImplicit false

namespace Akiso.Shell

open Descriptors

variable {F : Type}

inductive OpenCall (F : Type) where
  | failed
  | opened (fd : Nat) (file : F)
  deriving DecidableEq, Repr

structure RedirectCall (F : Type) where
  redirect : Redirect
  answer : OpenCall F
  deriving DecidableEq, Repr

def RedirectCall.opens (call : RedirectCall F) : Prop := call.redirect.rightFd = -1

instance (call : RedirectCall F) : Decidable call.opens :=
  inferInstanceAs (Decidable (_ = (-1 : Int)))

def redirectTo (table : Table F) (rightFd leftFd : Int) : Option (Table F) :=
  if leftFd < 0 then none
  else (dup2 table rightFd leftFd.toNat).map fun table => (close table rightFd).getD table

def applyRedirect (table : Table F) (call : RedirectCall F) : Table F :=
  let left := call.redirect.leftFd
  if left < 0 then table
  else if call.opens then
    match call.answer with
    | .failed => table
    | .opened _ file => Function.update table left.toNat (some { file, cloexec := false })
  else if call.redirect.rightFd = left then table
  else
    match lookup table call.redirect.rightFd with
    | none => table
    | some descriptor =>
      Function.update table left.toNat (some { descriptor with cloexec := false })

-- The number close is called with, where its entry is not set by the redirect itself.
def RedirectCall.closes (call : RedirectCall F) : Option Int :=
  if call.opens then
    match call.answer with
    | .failed => none
    | .opened fd _ => if (fd : Int) = call.redirect.leftFd then some fd else none
  else some call.redirect.rightFd

/-- The child's table against the intended one: the entries in `lost` are closed. -/
structure Behind (table intended : Table F) (lost : Set Nat) : Prop where
  kept : ∀ fd ∉ lost, table fd = intended fd
  gone : ∀ fd ∈ lost, table fd = none ∧ (intended fd).isSome

def lostAfter (lost : Set Nat) (call : RedirectCall F) : Set Nat :=
  { fd | (fd ∈ lost ∧ (fd : Int) ≠ call.redirect.leftFd) ∨ call.closes = some (fd : Int) }

variable {table intended : Table F} {lost : Set Nat} {call : RedirectCall F}

theorem Behind.after {next intendedNext : Table F} {left : Nat}
    (behind : Behind table intended lost) (leftFd : call.redirect.leftFd = left)
    (others : ∀ other, other ≠ left → intendedNext other = intended other)
    (still : ∀ other, other ≠ left → call.closes ≠ some (other : Int) → next other = table other)
    (set : call.closes ≠ some (left : Int) → next left = intendedNext left)
    (closed : ∀ fd : Nat, call.closes = some (fd : Int) →
      next fd = none ∧ (intendedNext fd).isSome) :
    Behind next intendedNext (lostAfter lost call) := by
  constructor
  · intro other outside
    obtain ⟨before, open_⟩ := not_or.mp outside
    by_cases same : other = left
    · exact same ▸ set (same ▸ open_)
    · have kept : other ∉ lost := fun member => before ⟨member, by rw [leftFd]; omega⟩
      rw [still other same open_, others other same, behind.kept other kept]
  · intro other inside
    by_cases now : call.closes = some (other : Int)
    · exact closed other now
    · obtain ⟨member, different⟩ := inside.resolve_right now
      have apart : other ≠ left := by
        rw [leftFd] at different
        omega
      rw [still other apart now, others other apart]
      exact behind.gone other member

theorem Behind.opened {left fd : Nat} {file : F} (behind : Behind table intended lost)
    (leftFd : call.redirect.leftFd = left) (opens : call.opens)
    (answered : call.answer = .opened fd file) (free : table fd = none) :
    ∃ next, redirectTo (Function.update table fd (some { file, cloexec := false })) fd left =
        some next ∧ Behind next (applyRedirect intended call) (lostAfter lost call) := by
  have positive : ¬ (left : Int) < 0 := by omega
  have target : applyRedirect intended call =
      Function.update intended left (some { file, cloexec := false }) := by
    simp [applyRedirect, leftFd, opens, answered, positive]
  have present : (Function.update table fd (some { file, cloexec := false }) fd).isSome := by simp
  have closes : call.closes = if fd = left then some (fd : Int) else none := by
    simp only [RedirectCall.closes, opens, if_true, answered, leftFd, Int.natCast_inj]
  rw [target]
  by_cases same : fd = left
  next =>
    subst same
    have restored : Function.update table fd none = table := by
      rw [← free, Function.update_eq_self]
    refine ⟨table, ?_, behind.after leftFd ?_ ?_ ?_ ?_⟩
    · simp [redirectTo, dup2_self present, close_open present, restored]
    · exact fun other different => Function.update_of_ne different _ _
    · exact fun _ _ _ => rfl
    · simp [closes]
    · intro other now
      simp only [closes, if_true, Option.some.injEq, Int.natCast_inj] at now
      subst now
      simp [free]
  next =>
    have found : Function.update table fd (some { file, cloexec := false }) fd =
        some { file, cloexec := false } := Function.update_self _ _ _
    refine ⟨Function.update (Function.update (Function.update table fd
      (some { file, cloexec := false })) left (some { file, cloexec := false })) fd none,
      ?_, behind.after leftFd ?_ ?_ ?_ ?_⟩
    · rw [redirectTo, if_neg positive, Int.toNat_natCast, dup2_open found same, Option.map_some,
        close_open (by simp [Function.update_of_ne same]), Option.getD_some]
    · exact fun other different => Function.update_of_ne different _ _
    · intro other different _
      by_cases own : other = fd
      · subst own
        simp [free]
      · simp [own, different]
    · have apart : left ≠ fd := Ne.symm same
      simp [Function.update_of_ne apart]
    · simp [closes, same]

inductive Right (table intended : Table F) (call : RedirectCall F) : Nat → Table F → Prop where
  | opened (fd : Nat) (file : F) : call.opens → call.answer = .opened fd file →
      table fd = none →
      Right table intended call fd (Function.update table fd (some { file, cloexec := false }))
  | named (number : Nat) (descriptor : Descriptor F) : ¬ call.opens →
      call.redirect.rightFd = number → intended number = some descriptor →
      Right table intended call number table

theorem Right.numbers {number : Nat} {opened : Table F}
    (right : Right table intended call number opened) (fd : Int)
    (closes : call.closes = some fd) : ∃ number : Nat, fd = number := by
  cases right with
  | opened file opens answered _ =>
    simp only [RedirectCall.closes, opens, answered, if_true] at closes
    split at closes
    next =>
      cases closes
      exact ⟨number, rfl⟩
    next => cases closes
  | named descriptor opens rightFd _ =>
    simp only [RedirectCall.closes, opens, if_false, rightFd, Option.some.injEq] at closes
    exact ⟨number, closes.symm⟩

end Akiso.Shell
