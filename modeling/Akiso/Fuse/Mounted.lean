import Mathlib.Data.List.Induction
import Akiso.Shared.FileTree
import Akiso.Fuse.Listing
import Akiso.Fuse.PathBounds
import Akiso.Fuse.Records
import Akiso.Fuse.Streams

set_option autoImplicit false

namespace Akiso.Fuse.Mounted

open Descriptors FileTree Transition

abbrev Underlying := FileSystem (List UInt8) (List UInt8)

abbrev Logical := FileSystem (List UInt8) RecordFile

structure Served (Tree : Type) where
  tree : Tree
  server : Server

abbrev CallReply := Reply (List UInt8) Answer

def diskFiles (aes : Aes) (stale : Nat → UInt8) : Files (List UInt8) FileCall Answer :=
  { blank := []
    change := fun call file => encryptedCall aes stale file call
    size := myFgetattr }

def recordFiles : Files RecordFile FileCall Answer :=
  { blank := .empty
    change := fun call file => file.call call
    size := fun file => .stat file.length }

-- How a system call takes a path; FUSE hands over none with . or .., which lead elsewhere.
def resolve (path : List UInt8) : Option (List (List UInt8)) :=
  if path.head? = some slash ∧ path.length < pathMax ∧
      ∀ token ∈ components path, ¬ special token ∧ token.length ≤ 255 then
    some (components path)
  else none

inductive PathCall where
  | getattr
  | mkdir (mode : Nat)
  | mknod (mode : Nat)
  | unlink
  | rmdir
  | opened (flags fd : Nat)
  | truncate (length : Nat)
  | access (mask : Nat)
  deriving DecidableEq

-- The system call at a path, with the descriptor that open finds. No rights are kept in the tree:
-- see Granted for the modes, masks and flags.
def PathCall.on (path : List (List UInt8)) : PathCall → Call (List UInt8) FileCall
  | .getattr => .getattr path
  | .mkdir _ => .mkdir path.dropLast (path.getLastD [])
  | .mknod _ => .mknod path.dropLast (path.getLastD [])
  | .unlink => .unlink path.dropLast (path.getLastD [])
  | .rmdir => .rmdir path.dropLast (path.getLastD [])
  | .opened _ fd => .opened path fd
  | .truncate length => .changedAt path (.ftruncate length)
  | .access _ => .access path

def Full (limit : Nat) (table : Table Unit) : Prop := ∀ fd < limit, (table fd).isSome = true

instance (limit : Nat) (table : Table Unit) : Decidable (Full limit table) :=
  inferInstanceAs (Decidable (∀ fd < limit, _))

section

variable (mount : Mount) (limit : Nat) (served : Served Underlying) (path : List UInt8)
  (array : Nat → UInt8)

def onRealPath (call : PathCall) : CallReply × Served Underlying :=
  match resolve (getRealPath mount path array).1.text with
  | some place =>
    let (reply, tree) := served.tree.call (diskFiles mount.aes fun _ => 0) (call.on place)
    (reply, { served with tree })
  | none => (.refused, served)

def myGetattr : CallReply × Served Underlying := onRealPath mount served path array .getattr

def myMkdir (mode : Nat) : CallReply × Served Underlying :=
  onRealPath mount served path array (.mkdir mode)

def myMknod (mode : Nat) : CallReply × Served Underlying :=
  onRealPath mount served path array (.mknod mode)

def myUnlink : CallReply × Served Underlying := onRealPath mount served path array .unlink

def myRmdir : CallReply × Served Underlying := onRealPath mount served path array .rmdir

def myTruncate (length : Nat) : CallReply × Served Underlying :=
  onRealPath mount served path array (.truncate length)

def myAccess (mask : Nat) : CallReply × Served Underlying :=
  onRealPath mount served path array (.access mask)

def myOpen (flags fd : Nat) : Option (CallReply × Served Underlying) :=
  match onRealPath mount served path array (.opened flags fd) with
  | (.done, next) =>
    if Full limit served.server.table then some (.refused, served)
    else (Fuse.myOpen limit served.server (some fd)).map fun server => (.done, { next with server })
  | (reply, _) => some (reply, served)

def listed : Option (List (List UInt8)) :=
  (resolve (getRealPath mount path array).1.text).bind served.tree.entries

def myOpendir (fd : Nat) : Option (CallReply × Served Underlying) :=
  if (listed mount served path array).isSome ∧ ¬ Full limit served.server.table then
    (Fuse.myOpendir limit served.server (some fd)).map fun server =>
      (.done, { served with server })
  else some (.refused, served)

-- my_readdir with the order in which the entries are found. It ends the process where opendir
-- fails, and here also where a name has no end in buff.
def myReaddir (fd : Nat) (order : List (List UInt8) → List (List UInt8)) :
    Option (CallReply × Served Underlying) :=
  match listed mount served path array with
  | none => none
  | some entries =>
    if Full limit served.server.table then none
    else
      (listDirectory limit served.server (some fd)).bind fun server =>
        (fillEntries mount (fun _ => 0) (order ([dot] :: [dot, dot] :: entries))).map
          fun (names, _) => (.names names, { served with server })

-- What close answers is lost.
def myRelease (fd : Nat) : CallReply × Served Underlying :=
  (.done, { tree := (served.tree.call (diskFiles mount.aes fun _ => 0) (.closed fd)).2
            server := Fuse.myRelease served.server fd })

def myReleasedir (fd : Nat) : CallReply × Served Underlying :=
  (.done, { served with server := Fuse.myReleasedir served.server fd })

def atPath : PathCall → Option (CallReply × Served Underlying)
  | .getattr => some (myGetattr mount served path array)
  | .mkdir mode => some (myMkdir mount served path array mode)
  | .mknod mode => some (myMknod mount served path array mode)
  | .unlink => some (myUnlink mount served path array)
  | .rmdir => some (myRmdir mount served path array)
  | .opened flags fd => myOpen mount limit served path array flags fd
  | .truncate length => some (myTruncate mount served path array length)
  | .access mask => some (myAccess mount served path array mask)

end

inductive MountCall where
  | atPath (call : PathCall) (path : List UInt8) (array : Nat → UInt8)
  | opendir (fd : Nat) (path : List UInt8) (array : Nat → UInt8)
  | readdir (fd : Nat) (path : List UInt8) (array : Nat → UInt8)
      (order : List (List UInt8) → List (List UInt8))
  | release (fd : Nat)
  | releasedir (fd : Nat)
  | onFile (fd : Nat) (call : FileCall) (stale : Nat → UInt8)

-- A call that ends the process has no reply.
def mountCall (mount : Mount) (limit : Nat) (served : Served Underlying) :
    MountCall → Option (CallReply × Served Underlying)
  | .atPath call path array => atPath mount limit served path array call
  | .opendir fd path array => myOpendir mount limit served path array fd
  | .readdir fd path array order => myReaddir mount limit served path array fd order
  | .release fd => some (myRelease mount served fd)
  | .releasedir fd => some (myReleasedir served fd)
  | .onFile fd call stale =>
    let (reply, tree) := served.tree.call (diskFiles mount.aes stale) (.changed fd call)
    some (reply, { served with tree })

def mountReplies (mount : Mount) (limit : Nat) :
    Served Underlying → List MountCall → List CallReply
  | _, [] => []
  | served, call :: rest =>
    match mountCall mount limit served call with
    | none => []
    | some (reply, next) => reply :: mountReplies mount limit next rest

def treeCall (tree : Logical) : MountCall → CallReply × Logical
  | .atPath call path _ => tree.call recordFiles (call.on (components path))
  | .opendir _ path _ =>
    (if (tree.entries (components path)).isSome then .done else .refused, tree)
  | .readdir _ path _ _ =>
    match tree.entries (components path) with
    | some entries => (.names ([dot] :: [dot, dot] :: entries), tree)
    | none => (.refused, tree)
  | .release fd => tree.call recordFiles (.closed fd)
  | .releasedir _ => (.done, tree)
  | .onFile fd call _ => tree.call recordFiles (.changed fd call)

def treeReplies : Logical → List MountCall → List CallReply
  | _, [] => []
  | tree, call :: rest => (treeCall tree call).1 :: treeReplies (treeCall tree call).2 rest

def attend (limit : Nat) (server : Server) (reply : CallReply) : MountCall → Option Server
  | .atPath (.opened _ fd) _ _ =>
    match reply with
    | .done => Fuse.myOpen limit server (some fd)
    | _ => some server
  | .opendir fd _ _ =>
    match reply with
    | .done => Fuse.myOpendir limit server (some fd)
    | _ => some server
  | .readdir fd _ _ _ => listDirectory limit server (some fd)
  | .release fd => some (Fuse.myRelease server fd)
  | .releasedir fd => some (Fuse.myReleasedir server fd)
  | _ => some server

def treeStep (limit : Nat) (served : Served Logical) (call : MountCall) :
    Option (Served Logical) :=
  (attend limit served.server (treeCall served.tree call).1 call).map fun server =>
    { tree := (treeCall served.tree call).2, server }

def Alike (first second : CallReply) : Prop :=
  first = second ∨ ∃ names others, first = .names names ∧ second = .names others ∧ names.Perm others

-- With 175 bytes the encrypted name has 236, with one more 256.
def Storable (name : List UInt8) : Prop :=
  0 ∉ name ∧ ¬ special name ∧ name.length ≤ 175

instance (name : List UInt8) : Decidable (Storable name) := inferInstanceAs (Decidable (_ ∧ _))

def ProperPath (mount : Mount) (path : List UInt8) : Prop :=
  path.head? = some slash ∧ 0 ∉ path ∧ (∀ token ∈ components path, Storable token) ∧
    (realPath mount (components path)).length + 2 ≤ pathMax

instance (mount : Mount) (path : List UInt8) : Decidable (ProperPath mount path) :=
  inferInstanceAs (Decidable (_ ∧ _))

def PathCall.entry : PathCall → Bool
  | .mkdir _ => true
  | .mknod _ => true
  | .unlink => true
  | .rmdir => true
  | _ => false

-- No call is refused for want of rights: directories are made with all rights of their owner, files
-- are regular and may be read and written, and access asks for no more than that. Files are opened
-- for reading and writing, neither to be cut nor to be appended to.
def PathCall.Granted : PathCall → Prop
  | .mkdir mode => mode &&& 0o700 = 0o700
  | .mknod mode => (mode &&& 0o170000 = 0o100000 ∨ mode &&& 0o170000 = 0) ∧ mode &&& 0o600 = 0o600
  -- F_OK, W_OK and R_OK
  | .access mask => mask ∈ [0, 2, 4, 6]
  -- O_RDWR, and O_LARGEFILE or not
  | .opened flags _ => flags ∈ [0o2, 0o100002]
  | _ => True

instance : ∀ call, Decidable (PathCall.Granted call)
  | .mkdir mode => inferInstanceAs (Decidable (mode &&& 0o700 = 0o700))
  | .mknod mode => inferInstanceAs (Decidable
      ((mode &&& 0o170000 = 0o100000 ∨ mode &&& 0o170000 = 0) ∧ mode &&& 0o600 = 0o600))
  | .access mask => inferInstanceAs (Decidable (mask ∈ [0, 2, 4, 6]))
  | .opened flags _ => inferInstanceAs (Decidable (flags ∈ [0o2, 0o100002]))
  | .getattr | .unlink | .rmdir | .truncate _ => isTrue True.intro

def Room (limit : Nat) (server : Server) (fd : Nat) : Prop :=
  fd < limit ∧ server.table fd = none

instance (limit : Nat) (server : Server) (fd : Nat) : Decidable (Room limit server fd) :=
  inferInstanceAs (Decidable (_ ∧ _))

-- A call that FUSE can make, with rights and descriptors left for it, and with the records of its
-- file placed as they have to be.
def Proper (mount : Mount) (limit : Nat) (served : Served Logical) : MountCall → Prop
  -- The root of the mount point is neither made nor removed.
  | .atPath call path _ => ProperPath mount path ∧ call.Granted ∧
      (call.entry = true → components path ≠ []) ∧
      ∀ flags fd, call = .opened flags fd → Room limit served.server fd
  | .opendir fd path _ => ProperPath mount path ∧ Room limit served.server fd
  | .readdir fd path _ order => ProperPath mount path ∧ Room limit served.server fd ∧
      (served.tree.entries (components path)).isSome = true ∧
      ∀ entries, (order entries).Perm entries
  | .release fd => (served.tree.handles fd).isSome = true
  | .releasedir fd => fd ∈ served.server.dirs
  | .onFile fd call _ =>
      ∀ inode ∈ served.tree.handles fd, (served.tree.contents inode).Placed call

def RealRoot (mount : Mount) : Prop :=
  mount.root.head? = some slash ∧
    ∀ token ∈ components mount.root, ¬ special token ∧ token.length ≤ 255

structure Fresh (mount : Mount) (tree : Underlying) : Prop where
  nodes : ∀ path, tree.nodes (components mount.root ++ path) =
    if path = [] then some (.directory []) else none
  handles : tree.handles = fun _ => none

def newTree (inodes : Nat) : Logical :=
  { nodes := fun path => if path = [] then some (.directory []) else none
    contents := fun _ => .empty
    nextInode := inodes
    handles := fun _ => none }

structure Mounts (mount : Mount) (tree : Logical) (disk : Underlying) : Prop where
  renamed : Renamed (encryptedName mount.aes mount.codec) (components mount.root)
    (fun file bytes => Holding mount.aes bytes file) tree disk
  named : tree.Named Storable

variable {mount : Mount} {tree : Logical} {disk : Underlying} {path name : List UInt8}
  {tokens : List (List UInt8)}

theorem simulates (aes : Aes) (stale : Nat → UInt8) : Simulates recordFiles (diskFiles aes stale)
    RecordFile.Placed (fun file bytes => Holding aes bytes file) where
  blank := ⟨rfl, nofun, nofun, nofun⟩
  size _ _ holding := congrArg Answer.stat holding.length
  change _ _ _ holding placed := holding.call stale placed

theorem components_child (path : List UInt8) (filled : name ≠ []) (single : slash ∉ name) :
    components (path ++ slash :: name) = components path ++ [name] := by
  have whole : name.splitOnP (· = slash) = [name] := by
    refine List.splitOnP_eq_singleton fun byte member => decide_eq_false ?_
    rintro rfl
    exact single member
  have split : (path ++ slash :: name).splitOnP (· = slash) =
      path.splitOnP (· = slash) ++ name.splitOnP (· = slash) :=
    List.splitOnP_append_cons path name (decide_eq_true rfl)
  rw [components, split, whole, List.filter_append, components]
  simp [filled]

theorem components_realPath (mount : Mount) (ordinary : ∀ token ∈ tokens, ¬ special token) :
    components (realPath mount tokens) =
      place (encryptedName mount.aes mount.codec) (components mount.root) tokens := by
  induction tokens using List.reverseRecOn with
  | nil => simp [realPath, place]
  | append_singleton rest name ih =>
    rw [realPath_child mount rest (ordinary name (by simp)),
      components_child _ (encryptedName_ne_nil _ _ name) (encryptedName_single mount name),
      ih fun token member => ordinary token (List.mem_append_left _ member)]
    simp [place]

theorem resolve_realPath (real : RealRoot mount) (proper : ProperPath mount path)
    (array : Nat → UInt8) : resolve (getRealPath mount path array).1.text =
      some (place (encryptedName mount.aes mount.codec) (components mount.root)
        (components path)) := by
  obtain ⟨absolute, clean, names, fits⟩ := proper
  have image := components_realPath mount fun token member => (names token member).2.1
  have led : (realPath mount (components path)).head? = some slash := by
    simp [realPath, List.head?_append, real.1]
  rw [getRealPath_text mount absolute clean, resolve, image, if_pos]
  refine ⟨led, by omega, fun token member => ?_⟩
  rcases List.mem_append.mp member with top | below
  · exact real.2 token top
  · obtain ⟨name, inside, rfl⟩ := List.mem_map.mp below
    have short := (names name inside).2.2
    refine ⟨encryptedName_ordinary mount name, ?_⟩
    rw [encryptedName_length]
    omega

theorem on_rename (call : PathCall) (inside : call.entry = true → components path ≠ [])
    (rename : List UInt8 → List UInt8) (root : List (List UInt8)) :
    (call.on (components path)).rename rename root =
      call.on (place rename root (components path)) := by
  have split (named : components path ≠ []) :
      place rename root (components path).dropLast =
          (place rename root (components path)).dropLast ∧
        rename ((components path).getLastD []) =
          (place rename root (components path)).getLastD [] := by
    obtain ⟨dir, name, parts⟩ := (List.eq_nil_or_concat' _).resolve_left named
    simp [parts, place, ← List.append_assoc]
  cases call with
  | mkdir | mknod | unlink | rmdir =>
    simp only [PathCall.on, Call.rename, (split (inside rfl)).1, (split (inside rfl)).2]
  | getattr | opened | truncate | access => rfl

theorem Room.open {limit fd : Nat} {server : Server} (room : Room limit server fd) :
    ∃ table, openFd limit server.table fd = some table ∧ ¬ Full limit server.table := by
  refine ⟨_, if_pos room, fun full => ?_⟩
  have taken := full fd room.1
  simp [room.2] at taken

theorem Mounts.onRealPath (mounts : Mounts mount tree disk) (real : RealRoot mount)
    (proper : ProperPath mount path) (call : PathCall)
    (inside : call.entry = true → components path ≠ []) (array : Nat → UInt8) (server : Server) :
    ∃ next, Mounted.onRealPath mount ⟨disk, server⟩ path array call =
        ((tree.call recordFiles (call.on (components path))).1, ⟨next, server⟩) ∧
      Mounts mount (tree.call recordFiles (call.on (components path))).2 next := by
  have allows : tree.Allows RecordFile.Placed (call.on (components path)) := by
    cases call with
    | truncate length => exact fun _ _ => True.intro
    | getattr | mkdir | mknod | unlink | rmdir | opened | access => exact True.intro
  have last (named : components path ≠ []) : Storable ((components path).getLastD []) := by
    obtain ⟨dir, name, parts⟩ := (List.eq_nil_or_concat' _).resolve_left named
    have member : name ∈ components path := by simp [parts]
    simpa [parts] using proper.2.2.1 name member
  have makes : (call.on (components path)).Makes Storable := by
    cases call with
    | mkdir | mknod => exact last (inside rfl)
    | getattr | unlink | rmdir | opened | truncate | access => exact True.intro
  have unlisted : ∀ other, call.on (components path) ≠ .list other := by
    cases call <;> simp [PathCall.on]
  obtain ⟨answered, renamed⟩ := mounts.renamed.call (simulates mount.aes fun _ => 0)
    (encryptedName_injective mount.aes mount.codec) (call.on (components path)) allows
  rw [on_rename call inside, FileSystem.call_rename _ unlisted] at answered
  rw [on_rename call inside] at renamed
  refine ⟨_, ?_, renamed, mounts.named.call makes⟩
  simp only [Mounted.onRealPath, resolve_realPath real proper array, answered]

theorem Mounts.open (mounts : Mounts mount tree disk) (real : RealRoot mount)
    (proper : ProperPath mount path) (flags : Nat) {limit fd : Nat} {server : Server}
    (room : Room limit server fd) (array : Nat → UInt8) {logical : Logical} {reply : CallReply}
    (called : tree.call recordFiles (.opened (components path) fd) = (reply, logical)) :
    ∃ next, Mounted.myOpen mount limit ⟨disk, server⟩ path array flags fd = some (reply, next) ∧
      attend limit server reply (.atPath (.opened flags fd) path array) = some next.server ∧
      Mounts mount logical next.tree := by
  obtain ⟨table, given, able⟩ := room.open
  obtain ⟨next, made, kept⟩ :=
    mounts.onRealPath real proper (.opened flags fd) nofun array server
  rw [PathCall.on, called] at made kept
  unfold Mounted.myOpen
  rw [made]
  cases reply with
  | done =>
    refine ⟨⟨next, { server with table, files := fd :: server.files }⟩, ?_, ?_, kept⟩
    · simp [able, Fuse.myOpen, given]
    · simp [attend, Fuse.myOpen, given]
  | refused | directory | names | answered =>
    have same : logical = tree := by
      simp only [FileSystem.call] at called
      split at called <;> simp_all
    exact ⟨⟨disk, server⟩, rfl, rfl, same ▸ mounts⟩

theorem Mounts.listed (mounts : Mounts mount tree disk) (real : RealRoot mount)
    (proper : ProperPath mount path) (array : Nat → UInt8) (server : Server) :
    Mounted.listed mount ⟨disk, server⟩ path array =
      (tree.entries (components path)).map
        (List.map (encryptedName mount.aes mount.codec)) := by
  simp only [Mounted.listed, resolve_realPath real proper array, Option.bind_some,
    mounts.renamed.entries]

theorem Mounts.readdir (mounts : Mounts mount tree disk) {entries : List (List UInt8)}
    (found : tree.entries (components path) = some entries)
    {order : List (List UInt8) → List (List UInt8)}
    (arranged : ∀ entries, (order entries).Perm entries) :
    ∃ names value, fillEntries mount (fun _ => 0) (order ([dot] :: [dot, dot] ::
        entries.map (encryptedName mount.aes mount.codec))) = some (names, value) ∧
      names.Perm ([dot] :: [dot, dot] :: entries) := by
  have storable := mounts.named.entries found
  have encoded : entries.map (encodedComponent mount) =
      entries.map (encryptedName mount.aes mount.codec) :=
    List.map_congr_left fun name member => if_neg (storable name member).2.1
  have shown : ([dot] :: [dot, dot] :: entries).map (encodedComponent mount) =
      [dot] :: [dot, dot] :: entries.map (encryptedName mount.aes mount.codec) := by
    simp [encoded, encodedComponent, special]
  have plain : ∀ token ∈ [dot] :: [dot, dot] :: entries, 0 ∉ token ∧ token.length ≤ 255 := by
    rw [List.forall_mem_cons, List.forall_mem_cons]
    refine ⟨by decide, by decide, fun name member => ?_⟩
    obtain ⟨clean, -, short⟩ := storable name member
    exact ⟨clean, short.trans (by decide)⟩
  have ordered := arranged (([dot] :: [dot, dot] :: entries).map (encodedComponent mount))
  obtain ⟨names, filled, listing⟩ := fillEntries_perm (fun _ => rfl) ordered plain
  rw [shown] at filled
  exact ⟨names, _, filled, listing⟩

-- What the process does about descriptors follows from the answer the tree gives.
theorem Mounts.step (mounts : Mounts mount tree disk) (real : RealRoot mount) {limit : Nat}
    {server : Server} {call : MountCall} (proper : Proper mount limit ⟨tree, server⟩ call) :
    ∃ reply next, mountCall mount limit ⟨disk, server⟩ call = some (reply, next) ∧
      Alike reply (treeCall tree call).1 ∧
      attend limit server (treeCall tree call).1 call = some next.server ∧
      Mounts mount (treeCall tree call).2 next.tree := by
  have injective := encryptedName_injective mount.aes mount.codec
  cases call with
  | atPath call path array =>
    obtain ⟨handed, -, inside, room⟩ := proper
    cases call with
    | opened flags fd =>
      obtain ⟨next, made, attended, kept⟩ :=
        mounts.open real handed flags (room flags fd rfl) array rfl
      exact ⟨_, next, made, .inl rfl, attended, kept⟩
    | getattr | mkdir | mknod | unlink | rmdir | truncate | access =>
      obtain ⟨next, made, kept⟩ := mounts.onRealPath real handed _ inside array server
      exact ⟨_, _, congrArg some made, .inl rfl, rfl, kept⟩
  | opendir fd path array =>
    obtain ⟨handed, room⟩ := proper
    obtain ⟨table, given, able⟩ := room.open
    simp only [mountCall, myOpendir, mounts.listed real handed, Option.isSome_map, treeCall]
    by_cases present : (tree.entries (components path)).isSome = true
    · simp only [present, able, not_false_eq_true, and_self, if_true, Fuse.myOpendir, given,
        Option.map_some]
      exact ⟨_, _, rfl, .inl rfl, by simp [attend, Fuse.myOpendir, given], mounts⟩
    · simp only [present]
      exact ⟨_, _, rfl, .inl rfl, rfl, mounts⟩
  | readdir fd path array order =>
    obtain ⟨handed, room, present, arranged⟩ := proper
    obtain ⟨entries, found⟩ := Option.isSome_iff_exists.mp present
    obtain ⟨table, given, able⟩ := room.open
    obtain ⟨names, value, filled, listing⟩ := mounts.readdir found arranged
    have found : tree.entries (components path) = some entries := found
    simp only [mountCall, myReaddir, mounts.listed real handed, found, Option.map_some, able,
      if_false, listDirectory, given, Option.bind_some, filled, treeCall]
    exact ⟨_, _, rfl, .inr ⟨names, _, rfl, rfl, listing⟩, by simp [attend, listDirectory, given],
      mounts⟩
  | release fd =>
    obtain ⟨-, renamed⟩ := mounts.renamed.call (simulates mount.aes fun _ => 0) injective
      (.closed fd) True.intro
    have held : (treeCall tree (.release fd)).1 = .done := by
      obtain ⟨inode, held⟩ := Option.isSome_iff_exists.mp proper
      have held : tree.handles fd = some inode := held
      simp [treeCall, FileSystem.call, held]
    exact ⟨_, _, rfl, .inl held.symm, rfl, renamed, mounts.named.call True.intro⟩
  | releasedir fd => exact ⟨_, _, rfl, .inl rfl, rfl, mounts⟩
  | onFile fd call stale =>
    obtain ⟨answered, renamed⟩ := mounts.renamed.call (simulates mount.aes stale) injective
      (.changed fd call) proper
    rw [FileSystem.call_rename _ (by simp)] at answered
    exact ⟨_, _, rfl, .inl answered, rfl, renamed, mounts.named.call True.intro⟩

theorem Mounts.replies (real : RealRoot mount) {limit : Nat} {server : Server}
    (mounts : Mounts mount tree disk) (calls : List MountCall)
    (proper : Always (treeStep limit) (Proper mount limit) ⟨tree, server⟩ calls) :
    List.Forall₂ Alike (mountReplies mount limit ⟨disk, server⟩ calls)
      (treeReplies tree calls) := by
  induction calls generalizing tree disk server with
  | nil => exact .nil
  | cons call rest ih =>
    obtain ⟨first, later⟩ := proper
    obtain ⟨reply, ⟨next, served⟩, made, alike, attended, kept⟩ := mounts.step real first
    simp only [mountReplies, made, treeReplies]
    refine .cons alike (ih kept (later _ ?_))
    simp [treeStep, attended]

theorem Fresh.mounts (fresh : Fresh mount disk) : Mounts mount (newTree disk.nextInode) disk where
  renamed :=
    { nodes := fun path => by
        rw [place, fresh.nodes, newTree]
        cases path <;> simp [Node.rename]
      nextInode := rfl
      handles := fresh.handles
      old := by
        rintro inode (⟨path, found⟩ | ⟨fd, held⟩)
        · simp [newTree] at found
        · cases held
      contents := by
        rintro inode (⟨path, found⟩ | ⟨fd, held⟩)
        · simp [newTree] at found
        · cases held }
  named path entries found := by
    simp only [newTree, Option.ite_none_right_eq_some, Option.some.injEq,
      Node.directory.injEq] at found
    simp [← found.2]

/-- A mount of an empty directory is a plain tree of directories and files: all calls are answered
as on the tree, whatever the names and the contents under it have become. -/
theorem mount_is_tree (mount : Mount) (limit : Nat) (disk : Underlying) (before : Table Unit)
    (calls : List MountCall) (real : RealRoot mount) (fresh : Fresh mount disk)
    (proper : Always (treeStep limit) (Proper mount limit)
      ⟨newTree disk.nextInode, mountedServer before⟩ calls) :
    List.Forall₂ Alike (mountReplies mount limit ⟨disk, mountedServer before⟩ calls)
      (treeReplies (newTree disk.nextInode) calls) :=
  fresh.mounts.replies real calls proper

def emptyDisk : Underlying :=
  { nodes := fun path =>
      if path = [] then some (.directory [[116]])
      else if path = [[116]] then some (.directory []) else none
    contents := fun _ => []
    nextInode := 0
    handles := fun _ => none }

def dirPath : List UInt8 := [slash, 97]

def filePath : List UInt8 := [slash, 97, slash, 98]

def fileCalls : List MountCall :=
  [.atPath (.mkdir 0o755) dirPath fun _ => 255, .atPath (.mknod 0o100644) filePath fun _ => 255,
    .atPath (.opened 0o2 3) filePath fun _ => 255, .onFile 3 (.write [120] 0) fun _ => 255,
    .atPath .rmdir dirPath fun _ => 255, .opendir 4 dirPath fun _ => 255,
    .readdir 5 dirPath (fun _ => 255) List.reverse, .releasedir 4,
    .atPath .unlink filePath fun _ => 255, .onFile 3 (.read 16 0) fun _ => 255,
    .atPath .getattr filePath fun _ => 255, .release 3]

theorem always_call {limit : Nat} {served next : Served Logical} {call : MountCall}
    {rest : List MountCall} (taken : treeStep limit served call = some next)
    (first : Proper mount limit served call)
    (later : Always (treeStep limit) (Proper mount limit) next rest) :
    Always (treeStep limit) (Proper mount limit) served (call :: rest) :=
  (always_of_taken taken).mp ⟨first, later⟩

theorem mount_is_tree_unlinkedFile :
    treeReplies (newTree 0) fileCalls =
        [.done, .done, .done, .answered (.wrote 16), .refused, .done,
          .names [[dot], [dot, dot], [98]], .done, .done, .answered (.got [120]), .refused,
          .done] ∧
      List.Forall₂ Alike
        (mountReplies rootMount 1024 ⟨emptyDisk, mountedServer standardTable⟩ fileCalls)
        (treeReplies (newTree 0) fileCalls) := by
  refine ⟨by decide +kernel,
    mount_is_tree rootMount 1024 emptyDisk standardTable fileCalls ?_ ?_ ?_⟩
  · exact ⟨rfl, by decide⟩
  · refine ⟨fun path => ?_, rfl⟩
    have top : components rootMount.root = [[116]] := by decide
    rw [top]
    cases path <;> simp [emptyDisk]
  · have dir : ProperPath rootMount dirPath := by decide +kernel
    have file : ProperPath rootMount filePath := by decide +kernel
    have below : components dirPath ≠ [] ∧ components filePath ≠ [] := by decide
    refine always_call rfl ⟨dir, by decide, fun _ => below.1, nofun⟩ ?_
    refine always_call rfl ⟨file, by decide, fun _ => below.2, nofun⟩ ?_
    refine always_call rfl ⟨file, by decide, nofun, ?opened⟩ ?_
    case opened =>
      rintro flags fd same
      cases same
      exact ⟨by decide, rfl⟩
    refine always_call rfl ?written ?_
    case written =>
      rintro inode held
      obtain rfl : 0 = inode := Option.some.inj held
      exact ⟨by decide, nofun⟩
    refine always_call rfl ⟨dir, by decide, fun _ => below.1, nofun⟩ ?_
    refine always_call rfl ⟨dir, by decide, rfl⟩ ?_
    refine always_call rfl ⟨dir, ⟨by decide, rfl⟩, ?listed, List.reverse_perm⟩ ?_
    case listed => decide +kernel
    refine always_call rfl (List.mem_cons_self : 4 ∈ [4]) ?_
    refine always_call rfl ⟨file, by decide, fun _ => below.2, nofun⟩ ?_
    refine always_call rfl ?read ?_
    case read =>
      rintro inode held
      obtain rfl : 0 = inode := Option.some.inj held
      exact ⟨[120], rfl, rfl⟩
    exact always_call rfl ⟨file, by decide, nofun, nofun⟩ (always_call rfl rfl True.intro)

end Akiso.Fuse.Mounted
