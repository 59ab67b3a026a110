import Akiso.Shared.Descriptors
import Akiso.Shared.Transition
import Mathlib.Data.List.Nodup
import Mathlib.Data.List.Perm.Subperm

set_option autoImplicit false

namespace Akiso.Fuse

open Descriptors Transition

/-- The process behind the mount: its descriptors, those of the files and directories that FUSE
holds open, and those of the streams that my_readdir has opened. -/
structure Server where
  table : Table Unit
  files : List Nat
  dirs : List Nat
  streams : List Nat
  crashed : Bool

/-- An answer is the descriptor behind what open or opendir returns, none for a failure. -/
inductive HandleCall where
  | opened (answer : Option Nat)
  | released (fh : Nat)
  | openedDir (answer : Option Nat)
  | releasedDir (fh : Nat)
  | listed (fh : Nat) (answer : Option Nat)
  deriving DecidableEq, Repr

def HandleCall.lists : HandleCall → Bool
  | .listed _ _ => true
  | _ => false

section Calls

variable (limit : Nat)

-- A free descriptor below the limit of the process; none where the kernel cannot give this one.
def openFd (table : Table Unit) (fd : Nat) : Option (Table Unit) :=
  if fd < limit ∧ table fd = none then
    some (Function.update table fd (some { file := (), cloexec := false }))
  else none

def myOpen (server : Server) : Option Nat → Option Server
  | some fd =>
    (openFd limit server.table fd).map fun table =>
      { server with table, files := fd :: server.files }
  | none => some server

-- What close returns is not looked at.
def myRelease (server : Server) (fh : Nat) : Server :=
  { server with
    table := (close server.table fh).getD server.table
    files := server.files.erase fh }

def myOpendir (server : Server) : Option Nat → Option Server
  | some fd =>
    (openFd limit server.table fd).map fun table =>
      { server with table, dirs := fd :: server.dirs }
  | none => some server

def myReleasedir (server : Server) (fh : Nat) : Server :=
  { server with
    table := (close server.table fh).getD server.table
    dirs := server.dirs.erase fh }

-- my_readdir opens the directory again, closes nothing, and hands NULL to readdir.
def listDirectory (server : Server) : Option Nat → Option Server
  | some fd =>
    (openFd limit server.table fd).map fun table =>
      { server with table, streams := fd :: server.streams }
  | none => some { server with crashed := true }

-- FUSE gives back each handle once, and lists a directory only through a handle of it.
def serverStep (server : Server) (call : HandleCall) : Option Server :=
  if server.crashed then none
  else
    match call with
    | .opened answer => myOpen limit server answer
    | .released fh => if fh ∈ server.files then some (myRelease server fh) else none
    | .openedDir answer => myOpendir limit server answer
    | .releasedDir fh => if fh ∈ server.dirs then some (myReleasedir server fh) else none
    | .listed fh answer => if fh ∈ server.dirs then listDirectory limit server answer else none

end Calls

def mountedServer (table : Table Unit) : Server :=
  { table, files := [], dirs := [], streams := [], crashed := false }

def Server.held (server : Server) : List Nat :=
  server.files ++ (server.dirs ++ server.streams)

structure Serves (before : Table Unit) (limit : Nat) (server : Server) : Prop where
  extended : Extends before server.table { fd | fd ∈ server.held }
  nodup : server.held.Nodup
  bounded : ∀ fd ∈ server.held, fd < limit

variable {before : Table Unit} {limit fd : Nat} {server next last : Server}

theorem Serves.opens (serves : Serves before limit server) {table : Table Unit}
    (opened : openFd limit server.table fd = some table) (held : next.held.Perm (fd :: server.held))
    (same : next.table = table) : Serves before limit next := by
  unfold openFd at opened
  split at opened <;> cases opened
  next free =>
    obtain ⟨low, free⟩ := free
    obtain ⟨unheld, fresh⟩ := serves.extended.free free
    have extended : Extends before
        (Function.update server.table fd (some { file := (), cloexec := false })) _ :=
      serves.extended.update_some fresh
    constructor
    next =>
      rw [same]
      exact extended.congr fun other => by simp [held.mem_iff]
    next => exact held.nodup_iff.mpr (List.nodup_cons.mpr ⟨unheld, serves.nodup⟩)
    next =>
      intro other member
      rcases List.mem_cons.mp (held.mem_iff.mp member) with rfl | member
      · exact low
      · exact serves.bounded other member

theorem Serves.closes (serves : Serves before limit server)
    (held : server.held.Perm (fd :: next.held))
    (same : next.table = (close server.table fd).getD server.table) :
    Serves before limit next := by
  have member : fd ∈ server.held := held.mem_iff.mpr List.mem_cons_self
  have distinct := List.nodup_cons.mp (held.nodup_iff.mp serves.nodup)
  have isOpen := serves.extended.opened fd member
  constructor
  next =>
    rw [same, close_open isOpen]
    refine (serves.extended.update_none (serves.extended.fresh fd member)).congr fun other => ?_
    simp only [Set.mem_sdiff, Set.mem_ofPred_eq, Set.mem_singleton_iff, held.mem_iff,
      List.mem_cons]
    constructor
    · rintro ⟨rfl | member, different⟩
      · exact absurd rfl different
      · exact member
    · intro member
      exact ⟨.inr member, fun same => distinct.1 (same ▸ member)⟩
  next => exact distinct.2
  next => exact fun other member => serves.bounded other (held.mem_iff.mpr (.tail _ member))

theorem Serves.step (serves : Serves before limit server) {call : HandleCall}
    (taken : serverStep limit server call = some next) : Serves before limit next := by
  have first : ∀ {fh list} (others : List Nat), fh ∈ list →
      (list ++ others).Perm (fh :: (list.erase fh ++ others)) :=
    fun others member => (List.perm_cons_erase member).append_right others
  unfold serverStep at taken
  split at taken
  next => simp at taken
  next =>
    split at taken
    next answer =>
      cases answer with
      | none =>
        cases taken
        exact serves
      | some fd =>
        obtain ⟨table, opened, rfl⟩ := Option.map_eq_some_iff.mp taken
        exact serves.opens opened (.refl _) rfl
    next fh =>
      split at taken <;> cases taken
      next member => exact serves.closes (first _ member) rfl
    next answer =>
      cases answer with
      | none =>
        cases taken
        exact serves
      | some fd =>
        obtain ⟨table, opened, rfl⟩ := Option.map_eq_some_iff.mp taken
        exact serves.opens opened List.perm_middle rfl
    next fh =>
      split at taken <;> cases taken
      next member =>
        refine serves.closes ?_ rfl
        exact ((first _ member).append_left server.files).trans List.perm_middle
    next fh answer =>
      split at taken
      next =>
        cases answer with
        | none =>
          cases taken
          exact ⟨serves.extended, serves.nodup, serves.bounded⟩
        | some fd =>
          obtain ⟨table, opened, rfl⟩ := Option.map_eq_some_iff.mp taken
          refine serves.opens opened ?_ rfl
          exact (List.perm_middle.append_left server.files).trans List.perm_middle
      next => simp at taken

theorem Serves.run (calls : List HandleCall) (serves : Serves before limit server)
    (ran : run (serverStep limit) server calls = some last) : Serves before limit last := by
  induction calls generalizing server with
  | nil =>
    cases ran
    exact serves
  | cons call rest ih =>
    obtain ⟨next, taken, ran⟩ := run_cons ran
    exact ih (serves.step taken) ran

theorem crashed_stays {calls : List HandleCall} (crashed : server.crashed = true)
    (ran : run (serverStep limit) server calls = some last) : last.crashed = true := by
  cases calls with
  | nil =>
    cases ran
    exact crashed
  | cons call rest =>
    obtain ⟨next, taken, _⟩ := run_cons ran
    simp [serverStep, crashed] at taken

theorem step_streams {call : HandleCall} (taken : serverStep limit server call = some next)
    (alive : next.crashed = false) :
    next.streams.length = server.streams.length + if call.lists then 1 else 0 := by
  unfold serverStep at taken
  split at taken
  next => simp at taken
  next =>
    split at taken
    next answer =>
      cases answer with
      | none => cases taken; rfl
      | some fd => obtain ⟨_, _, rfl⟩ := Option.map_eq_some_iff.mp taken; rfl
    next => split at taken <;> cases taken; rfl
    next answer =>
      cases answer with
      | none => cases taken; rfl
      | some fd => obtain ⟨_, _, rfl⟩ := Option.map_eq_some_iff.mp taken; rfl
    next => split at taken <;> cases taken; rfl
    next fh answer =>
      split at taken
      next =>
        cases answer with
        | none => cases taken; simp at alive
        | some fd => obtain ⟨_, _, rfl⟩ := Option.map_eq_some_iff.mp taken; rfl
      next => simp at taken

theorem run_streams (calls : List HandleCall)
    (ran : run (serverStep limit) server calls = some last) (alive : last.crashed = false) :
    last.streams.length = server.streams.length + calls.countP (·.lists) := by
  induction calls generalizing server with
  | nil =>
    cases ran
    rfl
  | cons call rest ih =>
    obtain ⟨next, taken, onward⟩ := run_cons ran
    have going : next.crashed = false := by
      by_contra crashed
      have stays := crashed_stays (Bool.eq_true_of_not_eq_false crashed) onward
      simp [alive] at stays
    rw [ih onward, step_streams taken going, List.countP_cons]
    omega

/-- Each listing takes one descriptor for good, beside the one of each file and directory that is
open: once all these are given back, the process has the descriptors it began with only if no
directory was listed, and a run with more listings than the process may have descriptors ends in a
crash. -/
theorem listing_leaks (calls : List HandleCall)
    (ran : run (serverStep limit) (mountedServer before) calls = some last)
    (alive : last.crashed = false) :
    Serves before limit last ∧ last.streams.length = calls.countP (·.lists) ∧
      calls.countP (·.lists) + last.files.length + last.dirs.length ≤ limit ∧
      (last.files = [] → last.dirs = [] →
        (openSet last.table = openSet before ↔ calls.countP (·.lists) = 0)) := by
  have fresh : Serves before limit (mountedServer before) :=
    ⟨(Extends.refl before).congr fun fd => by simp [mountedServer, Server.held],
      List.nodup_nil, nofun⟩
  have serves := fresh.run calls ran
  have streams := run_streams calls ran alive
  simp only [mountedServer, List.length_nil, Nat.zero_add] at streams
  refine ⟨serves, streams, ?_, ?_⟩
  next =>
    have within : last.held ⊆ List.range limit :=
      fun fd member => List.mem_range.mpr (serves.bounded fd member)
    have few := (serves.nodup.subperm within).length_le
    simp only [Server.held, List.length_append, List.length_range] at few
    omega
  next =>
    intro files dirs
    rw [serves.extended.openSet_eq_iff, ← streams, List.length_eq_zero_iff]
    simp [Server.held, files, dirs, Set.eq_empty_iff_forall_notMem, List.eq_nil_iff_forall_not_mem]

def standardTable : Table Unit :=
  fun fd => if fd < 3 then some { file := (), cloexec := false } else none

def browsed : List HandleCall :=
  [.opened (some 3), .openedDir (some 4), .listed 4 (some 5), .listed 4 (some 6),
    .releasedDir 4, .released 3]

theorem listing_leaks_browsed :
    let last := (run (serverStep 1024) (mountedServer standardTable) browsed).get (by decide)
    last.streams = [6, 5] ∧ Serves standardTable 1024 last ∧
      last.streams.length = browsed.countP (·.lists) ∧
      browsed.countP (·.lists) + last.files.length + last.dirs.length ≤ 1024 ∧
      (last.files = [] → last.dirs = [] →
        (openSet last.table = openSet standardTable ↔ browsed.countP (·.lists) = 0)) :=
  ⟨by decide, listing_leaks browsed (Option.some_get _).symm (by decide)⟩

end Akiso.Fuse
