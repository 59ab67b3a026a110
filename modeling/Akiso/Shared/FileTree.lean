import Mathlib.Data.List.Basic
import Mathlib.Logic.Function.Basic

set_option autoImplicit false

/-!
# A tree of directories and files

Files are kept by their inodes, so that one that is open stays when its name goes. The calls are
described over any names and any kind of file, and a tree is compared with another one that has
other names and other contents.
-/

namespace Akiso.FileTree

inductive Node (Name : Type) where
  | directory (entries : List Name)
  | file (inode : Nat)
  deriving DecidableEq

/-- Nodes by their paths, contents by their inodes, and the inodes behind the open descriptors. -/
structure FileSystem (Name Content : Type) where
  nodes : List Name → Option (Node Name)
  contents : Nat → Content
  nextInode : Nat
  handles : Nat → Option Nat

/-- What can be done to the contents of a file, and what is told of its size. -/
structure Files (Content Change Answer : Type) where
  blank : Content
  change : Change → Content → Answer × Content
  size : Content → Answer

/-- A name to be made or removed is given behind its directory. -/
inductive Call (Name Change : Type) where
  | mkdir (dir : List Name) (name : Name)
  | mknod (dir : List Name) (name : Name)
  | unlink (dir : List Name) (name : Name)
  | rmdir (dir : List Name) (name : Name)
  | access (path : List Name)
  | getattr (path : List Name)
  | list (path : List Name)
  | opened (path : List Name) (fd : Nat)
  | closed (fd : Nat)
  | changed (fd : Nat) (change : Change)
  | changedAt (path : List Name) (change : Change)

inductive Reply (Name Answer : Type) where
  | done
  | refused
  | directory
  | names (entries : List Name)
  | answered (answer : Answer)
  deriving DecidableEq

section Calls

variable {Name Content Change Answer : Type} [DecidableEq Name]

namespace FileSystem

def entries (tree : FileSystem Name Content) (dir : List Name) : Option (List Name) :=
  match tree.nodes dir with
  | some (.directory entries) => some entries
  | _ => none

def inode (tree : FileSystem Name Content) (path : List Name) : Option Nat :=
  match tree.nodes path with
  | some (.file inode) => some inode
  | _ => none

def put (tree : FileSystem Name Content) (dir : List Name) (name : Name) (node : Option (Node Name))
    (entries : List Name) : FileSystem Name Content :=
  { tree with
    nodes := Function.update (Function.update tree.nodes (dir ++ [name]) node) dir
      (some (.directory entries)) }

def add (tree : FileSystem Name Content) (dir : List Name) (name : Name) (node : Node Name) :
    Option (FileSystem Name Content) :=
  match tree.entries dir with
  | some entries =>
    if name ∈ entries then none else some (tree.put dir name (some node) (name :: entries))
  | none => none

def remove (tree : FileSystem Name Content) (dir : List Name) (name : Name) :
    Option (FileSystem Name Content) :=
  match tree.entries dir with
  | some entries =>
    if name ∈ entries then some (tree.put dir name none (entries.erase name)) else none
  | none => none

def newInode (files : Files Content Change Answer) (tree : FileSystem Name Content) :
    FileSystem Name Content :=
  { tree with
    contents := Function.update tree.contents tree.nextInode files.blank
    nextInode := tree.nextInode + 1 }

def settle (tree : FileSystem Name Content) (next : Option (FileSystem Name Content)) :
    Reply Name Answer × FileSystem Name Content :=
  match next with
  | some next => (.done, next)
  | none => (.refused, tree)

def write (files : Files Content Change Answer) (tree : FileSystem Name Content)
    (inode : Option Nat) (change : Change) : Reply Name Answer × FileSystem Name Content :=
  match inode with
  | some inode =>
    let (answer, content) := files.change change (tree.contents inode)
    (.answered answer, { tree with contents := Function.update tree.contents inode content })
  | none => (.refused, tree)

def call (files : Files Content Change Answer) (tree : FileSystem Name Content) :
    Call Name Change → Reply Name Answer × FileSystem Name Content
  | .mkdir dir name => tree.settle (tree.add dir name (.directory []))
  | .mknod dir name =>
    tree.settle ((tree.newInode files).add dir name (.file tree.nextInode))
  | .unlink dir name =>
    tree.settle (if (tree.inode (dir ++ [name])).isSome then tree.remove dir name else none)
  | .rmdir dir name =>
    tree.settle (if tree.entries (dir ++ [name]) = some [] then tree.remove dir name else none)
  | .access path => (if (tree.nodes path).isSome then .done else .refused, tree)
  | .getattr path =>
    match tree.nodes path with
    | some (.directory _) => (.directory, tree)
    | some (.file inode) => (.answered (files.size (tree.contents inode)), tree)
    | none => (.refused, tree)
  | .list path =>
    match tree.entries path with
    | some entries => (.names entries, tree)
    | none => (.refused, tree)
  | .opened path fd =>
    match tree.inode path, tree.handles fd with
    | some inode, none =>
      (.done, { tree with handles := Function.update tree.handles fd (some inode) })
    | _, _ => (.refused, tree)
  | .closed fd =>
    match tree.handles fd with
    | some _ => (.done, { tree with handles := Function.update tree.handles fd none })
    | none => (.refused, tree)
  | .changed fd change => tree.write files (tree.handles fd) change
  | .changedAt path change => tree.write files (tree.inode path) change

end FileSystem

end Calls

section Renaming

variable {Name Other Content OtherContent Change Answer : Type}

def Node.rename (rename : Name → Other) : Node Name → Node Other
  | directory entries => directory (entries.map rename)
  | file inode => file inode

def place (rename : Name → Other) (root : List Other) (path : List Name) : List Other :=
  root ++ path.map rename

def Call.rename (rename : Name → Other) (root : List Other) : Call Name Change → Call Other Change
  | mkdir dir name => mkdir (place rename root dir) (rename name)
  | mknod dir name => mknod (place rename root dir) (rename name)
  | unlink dir name => unlink (place rename root dir) (rename name)
  | rmdir dir name => rmdir (place rename root dir) (rename name)
  | access path => access (place rename root path)
  | getattr path => getattr (place rename root path)
  | list path => list (place rename root path)
  | opened path fd => opened (place rename root path) fd
  | closed fd => closed fd
  | changed fd change => changed fd change
  | changedAt path change => changedAt (place rename root path) change

def Reply.rename (rename : Name → Other) : Reply Name Answer → Reply Other Answer
  | done => done
  | refused => refused
  | directory => directory
  | names entries => names (entries.map rename)
  | answered answer => answered answer

def FileSystem.Known (tree : FileSystem Name Content) (inode : Nat) : Prop :=
  (∃ path, tree.nodes path = some (.file inode)) ∨ ∃ fd, tree.handles fd = some inode

def FileSystem.Allows (tree : FileSystem Name Content) (allowed : Content → Change → Prop) :
    Call Name Change → Prop
  | .changed fd change => ∀ inode ∈ tree.handles fd, allowed (tree.contents inode) change
  | .changedAt path change => ∀ inode ∈ tree.inode path, allowed (tree.contents inode) change
  | _ => True

/-- Contents of one kind stand for those of another under the changes that are allowed. -/
structure Simulates (files : Files Content Change Answer)
    (others : Files OtherContent Change Answer) (allowed : Content → Change → Prop)
    (alike : Content → OtherContent → Prop) : Prop where
  blank : alike files.blank others.blank
  size : ∀ content other, alike content other → others.size other = files.size content
  change : ∀ content other change, alike content other → allowed content change →
    (others.change change other).1 = (files.change change content).1 ∧
      alike (files.change change content).2 (others.change change other).2

/-- Below its root the other tree is the tree with its names and contents replaced. -/
structure Renamed (rename : Name → Other) (root : List Other)
    (alike : Content → OtherContent → Prop) (tree : FileSystem Name Content)
    (other : FileSystem Other OtherContent) : Prop where
  nodes : ∀ path, other.nodes (place rename root path) = (tree.nodes path).map (.rename rename)
  nextInode : other.nextInode = tree.nextInode
  handles : other.handles = tree.handles
  old : ∀ inode, tree.Known inode → inode < tree.nextInode
  contents : ∀ inode, tree.Known inode → alike (tree.contents inode) (other.contents inode)

def Matches (rename : Name → Other) (root : List Other) (alike : Content → OtherContent → Prop)
    (result : Reply Name Answer × FileSystem Name Content)
    (otherResult : Reply Other Answer × FileSystem Other OtherContent) : Prop :=
  otherResult.1 = result.1.rename rename ∧ Renamed rename root alike result.2 otherResult.2

variable [DecidableEq Name] [DecidableEq Other] {rename : Name → Other} {root : List Other}
  {alike : Content → OtherContent → Prop} {allowed : Content → Change → Prop}
  {tree next : FileSystem Name Content} {other : FileSystem Other OtherContent}
  {files : Files Content Change Answer} {others : Files OtherContent Change Answer}
  {dir path : List Name} {name : Name} {node : Node Name}

omit [DecidableEq Name] [DecidableEq Other] in
theorem place_inj (injective : Function.Injective rename) {first second : List Name} :
    place rename root first = place rename root second ↔ first = second := by
  simp [place, List.map_inj_right injective]

omit [DecidableEq Name] [DecidableEq Other] in
theorem place_concat : place rename root dir ++ [rename name] =
    place rename root (dir ++ [name]) := by
  simp [place]

namespace Renamed

omit [DecidableEq Name] [DecidableEq Other] in
theorem entries (renamed : Renamed rename root alike tree other) (path : List Name) :
    other.entries (place rename root path) = (tree.entries path).map (List.map rename) := by
  rw [FileSystem.entries, FileSystem.entries, renamed.nodes]
  cases tree.nodes path with
  | none => rfl
  | some node => cases node <;> rfl

omit [DecidableEq Name] [DecidableEq Other] in
theorem inode (renamed : Renamed rename root alike tree other) (path : List Name) :
    other.inode (place rename root path) = tree.inode path := by
  rw [FileSystem.inode, FileSystem.inode, renamed.nodes]
  cases tree.nodes path with
  | none => rfl
  | some node => cases node <;> rfl

theorem put (injective : Function.Injective rename) (renamed : Renamed rename root alike tree other)
    {node : Option (Node Name)} (entries : List Name)
    (known : ∀ inode, node = some (.file inode) →
      inode < tree.nextInode ∧ alike (tree.contents inode) (other.contents inode)) :
    Renamed rename root alike (tree.put dir name node entries)
      (other.put (place rename root dir) (rename name) (node.map (.rename rename))
        (entries.map rename)) := by
  have before : ∀ inode, (tree.put dir name node entries).Known inode →
      tree.Known inode ∨ node = some (.file inode) := by
    rintro inode (⟨path, found⟩ | held)
    · simp only [FileSystem.put, Function.update_apply] at found
      split at found
      next => cases found
      next =>
        split at found
        next => exact .inr found
        next => exact .inl (.inl ⟨path, found⟩)
    · exact .inl (.inr held)
  constructor
  case nodes =>
    intro path
    simp only [FileSystem.put, place_concat, Function.update_apply, place_inj injective]
    split
    next => rfl
    next =>
      split
      next => rfl
      next => exact renamed.nodes path
  case nextInode => exact renamed.nextInode
  case handles => exact renamed.handles
  case old =>
    intro inode reached
    exact (before inode reached).elim (renamed.old inode) fun new => (known inode new).1
  case contents =>
    intro inode reached
    exact (before inode reached).elim (renamed.contents inode) fun new => (known inode new).2

theorem add (injective : Function.Injective rename) (renamed : Renamed rename root alike tree other)
    (known : ∀ inode, node = .file inode →
      inode < tree.nextInode ∧ alike (tree.contents inode) (other.contents inode)) :
    Option.Rel (Renamed rename root alike) (tree.add dir name node)
      (other.add (place rename root dir) (rename name) (node.rename rename)) := by
  rw [FileSystem.add, FileSystem.add, renamed.entries]
  cases tree.entries dir with
  | none => exact .none
  | some entries =>
    simp only [Option.map_some, List.mem_map_of_injective injective]
    split
    next => exact .none
    next =>
      refine .some (renamed.put injective (name :: entries) fun inode same => ?_)
      exact known inode (Option.some.inj same)

theorem remove (injective : Function.Injective rename)
    (renamed : Renamed rename root alike tree other) :
    Option.Rel (Renamed rename root alike) (tree.remove dir name)
      (other.remove (place rename root dir) (rename name)) := by
  rw [FileSystem.remove, FileSystem.remove, renamed.entries]
  cases tree.entries dir with
  | none => exact .none
  | some entries =>
    simp only [Option.map_some, List.mem_map_of_injective injective]
    split
    next =>
      rw [← List.map_erase injective]
      exact .some (renamed.put injective (entries.erase name) nofun)
    next => exact .none

omit [DecidableEq Name] [DecidableEq Other] in
theorem newInode (renamed : Renamed rename root alike tree other) :
    Renamed rename root alike (tree.newInode files) (other.newInode others) where
  nodes := renamed.nodes
  nextInode := congrArg (· + 1) renamed.nextInode
  handles := renamed.handles
  old inode known := Nat.lt_succ_of_lt (renamed.old inode known)
  contents inode known := by
    have older : inode ≠ tree.nextInode := Nat.ne_of_lt (renamed.old inode known)
    simp only [FileSystem.newInode, renamed.nextInode, Function.update_of_ne older]
    exact renamed.contents inode known

omit [DecidableEq Name] [DecidableEq Other] in
theorem settle (renamed : Renamed rename root alike tree other)
    {first : Option (FileSystem Name Content)} {second : Option (FileSystem Other OtherContent)}
    (related : Option.Rel (Renamed rename root alike) first second) :
    Matches rename root alike (tree.settle first : Reply Name Answer × _)
      (other.settle second) := by
  cases related with
  | none => exact ⟨rfl, renamed⟩
  | some related => exact ⟨rfl, related⟩

omit [DecidableEq Name] [DecidableEq Other] in
theorem write (simulates : Simulates files others allowed alike)
    (renamed : Renamed rename root alike tree other) {inode : Option Nat}
    (known : ∀ number ∈ inode, tree.Known number) {change : Change}
    (permitted : ∀ number ∈ inode, allowed (tree.contents number) change) :
    Matches rename root alike (tree.write files inode change)
      (other.write others inode change) := by
  cases inode with
  | none => exact ⟨rfl, renamed⟩
  | some number =>
    have same := renamed.contents number (known number rfl)
    obtain ⟨answer, changed⟩ := simulates.change _ _ change same (permitted number rfl)
    refine ⟨congrArg Reply.answered answer, renamed.nodes, renamed.nextInode, renamed.handles,
      renamed.old, fun inode reached => ?_⟩
    simp only [FileSystem.write, Function.update_apply]
    split
    next => exact changed
    next => exact renamed.contents inode reached

omit [DecidableEq Name] [DecidableEq Other] in
theorem reopen (renamed : Renamed rename root alike tree other) (fd : Nat) (inode : Option Nat)
    (known : ∀ number ∈ inode, tree.Known number) :
    Renamed rename root alike { tree with handles := Function.update tree.handles fd inode }
      { other with handles := Function.update other.handles fd inode } := by
  have before : ∀ number,
      FileSystem.Known { tree with handles := Function.update tree.handles fd inode } number →
        tree.Known number := by
    rintro number (named | ⟨descriptor, held⟩)
    · exact .inl named
    · simp only [Function.update_apply] at held
      split at held
      next => exact known number held
      next => exact .inr ⟨descriptor, held⟩
  exact
    { nodes := renamed.nodes
      nextInode := renamed.nextInode
      handles := by simp only [renamed.handles]
      old := fun number reached => renamed.old number (before number reached)
      contents := fun number reached => renamed.contents number (before number reached) }

omit [DecidableEq Name] in
theorem known_inode {number : Nat} (found : tree.inode path = some number) :
    tree.Known number := by
  unfold FileSystem.inode at found
  split at found
  next node file => exact .inl ⟨path, (Option.some.inj found) ▸ file⟩
  next => cases found

theorem call (simulates : Simulates files others allowed alike)
    (injective : Function.Injective rename) (renamed : Renamed rename root alike tree other)
    (call : Call Name Change) (allows : tree.Allows allowed call) :
    Matches rename root alike (tree.call files call)
      (other.call others (call.rename rename root)) := by
  cases call with
  | mkdir dir name => exact renamed.settle (renamed.add injective nofun)
  | mknod dir name =>
    have made : Renamed rename root alike (tree.newInode files) (other.newInode others) :=
      renamed.newInode
    have same : other.call others (Call.rename rename root (.mknod dir name : Call Name Change)) =
        other.settle ((other.newInode others).add (place rename root dir) (rename name)
          (Node.rename rename (.file tree.nextInode))) := by
      simp only [FileSystem.call, Call.rename, Node.rename, renamed.nextInode]
    rw [same]
    refine renamed.settle (made.add injective fun inode found => ?_)
    obtain rfl : tree.nextInode = inode := by simpa using found
    refine ⟨Nat.lt_succ_self _, ?_⟩
    simpa [FileSystem.newInode, renamed.nextInode] using simulates.blank
  | unlink dir name =>
    refine renamed.settle ?_
    rw [place_concat, renamed.inode]
    split
    next => exact renamed.remove injective
    next => exact .none
  | rmdir dir name =>
    refine renamed.settle ?_
    have empty : (tree.entries (dir ++ [name])).map (List.map rename) = some [] ↔
        tree.entries (dir ++ [name]) = some [] := by
      cases tree.entries (dir ++ [name]) <;> simp
    rw [place_concat, renamed.entries]
    simp only [empty]
    split
    next => exact renamed.remove injective
    next => exact .none
  | access path =>
    refine ⟨?_, renamed⟩
    simp only [FileSystem.call, Call.rename, renamed.nodes, Option.isSome_map]
    split <;> rfl
  | getattr path =>
    simp only [FileSystem.call, Call.rename, renamed.nodes]
    cases found : tree.nodes path with
    | none => exact ⟨rfl, renamed⟩
    | some node =>
      cases node with
      | directory entries => exact ⟨rfl, renamed⟩
      | file inode =>
        have same := renamed.contents inode (.inl ⟨path, found⟩)
        exact ⟨congrArg Reply.answered (simulates.size _ _ same), renamed⟩
  | list path =>
    simp only [FileSystem.call, Call.rename, renamed.entries]
    cases tree.entries path with
    | none => exact ⟨rfl, renamed⟩
    | some entries => exact ⟨rfl, renamed⟩
  | opened path fd =>
    simp only [FileSystem.call, Call.rename, renamed.inode, renamed.handles]
    cases found : tree.inode path with
    | none => exact ⟨rfl, renamed⟩
    | some inode =>
      cases tree.handles fd with
      | some _ => exact ⟨rfl, renamed⟩
      | none =>
        have known : ∀ number ∈ some inode, tree.Known number := fun number same =>
          known_inode (same ▸ found)
        exact ⟨rfl, renamed.handles ▸ renamed.reopen fd (some inode) known⟩
  | closed fd =>
    simp only [FileSystem.call, Call.rename, renamed.handles]
    cases tree.handles fd with
    | none => exact ⟨rfl, renamed⟩
    | some _ => exact ⟨rfl, renamed.handles ▸ renamed.reopen fd none nofun⟩
  | changed fd change =>
    have written := renamed.write simulates (fun number held => .inr ⟨fd, held⟩) allows
    simpa only [FileSystem.call, Call.rename, renamed.handles] using written
  | changedAt path change =>
    have written := renamed.write simulates (fun number => known_inode) allows
    simpa only [FileSystem.call, Call.rename, renamed.inode] using written

end Renamed

end Renaming

section Names

variable {Name Content Change Answer : Type} [DecidableEq Name]

def FileSystem.Named (tree : FileSystem Name Content) (good : Name → Prop) : Prop :=
  ∀ path entries, tree.nodes path = some (.directory entries) → ∀ name ∈ entries, good name

def Call.Makes (good : Name → Prop) : Call Name Change → Prop
  | .mkdir _ name => good name
  | .mknod _ name => good name
  | _ => True

variable {tree next : FileSystem Name Content} {files : Files Content Change Answer}
  {good : Name → Prop} {dir : List Name} {name : Name} {node : Node Name} {listed : List Name}

theorem FileSystem.call_rename (rename : Name → Name) {call : Call Name Change}
    (unlisted : ∀ path, call ≠ .list path) :
    (tree.call files call).1.rename rename = (tree.call files call).1 := by
  have settled (later : Option (FileSystem Name Content)) :
      (tree.settle later : Reply Name Answer × _).1.rename rename = (tree.settle later).1 := by
    cases later <;> rfl
  have written (inode : Option Nat) (change : Change) :
      (tree.write files inode change).1.rename rename = (tree.write files inode change).1 := by
    cases inode <;> rfl
  cases call with
  | mkdir | mknod | unlink | rmdir => exact settled _
  | changed | changedAt => exact written _ _
  | list path => exact absurd rfl (unlisted path)
  | access | getattr | opened | closed =>
    simp only [FileSystem.call]
    split <;> rfl

namespace FileSystem.Named

omit [DecidableEq Name] in
theorem entries (named : tree.Named good) (found : tree.entries dir = some listed) :
    ∀ name ∈ listed, good name := by
  unfold FileSystem.entries at found
  split at found
  next here node => exact named dir _ (Option.some.inj found ▸ node)
  next => cases found

theorem put (named : tree.Named good) {node : Option (Node Name)}
    (fresh : ∀ entries, node = some (.directory entries) → entries = [])
    (kept : ∀ name ∈ listed, good name) : (tree.put dir name node listed).Named good := by
  intro path entries found
  simp only [FileSystem.put, Function.update_apply] at found
  split at found
  next =>
    obtain rfl : listed = entries := by simpa using found
    exact kept
  next =>
    split at found
    next =>
      obtain rfl := fresh entries found
      simp
    next => exact named path entries found

theorem add (named : tree.Named good)
    (fresh : ∀ entries, node = .directory entries → entries = []) (made : good name)
    (added : tree.add dir name node = some next) : next.Named good := by
  unfold FileSystem.add at added
  split at added
  next listed found =>
    split at added
    next => cases added
    next =>
      obtain rfl := Option.some.inj added
      refine named.put (fun entries same => fresh entries (Option.some.inj same)) ?_
      exact List.forall_mem_cons.mpr ⟨made, named.entries found⟩
  next => cases added

theorem remove (named : tree.Named good) (removed : tree.remove dir name = some next) :
    next.Named good := by
  unfold FileSystem.remove at removed
  split at removed
  next listed found =>
    split at removed
    next =>
      obtain rfl := Option.some.inj removed
      refine named.put (by simp) fun other member => ?_
      exact named.entries found other (List.mem_of_mem_erase member)
    next => cases removed
  next => cases removed

omit [DecidableEq Name] in
theorem settle (named : tree.Named good) {later : Option (FileSystem Name Content)}
    (kept : ∀ next, later = some next → next.Named good) :
    (tree.settle later : Reply Name Answer × _).2.Named good := by
  cases later with
  | none => exact named
  | some next => exact kept next rfl

omit [DecidableEq Name] in
theorem write (named : tree.Named good) (inode : Option Nat) (change : Change) :
    (tree.write files inode change).2.Named good := by
  cases inode with
  | none => exact named
  | some inode => exact named

theorem call (named : tree.Named good) {call : Call Name Change} (makes : call.Makes good) :
    (tree.call files call).2.Named good := by
  cases call with
  | mkdir dir name => exact named.settle fun next added => named.add (by simp) makes added
  | mknod dir name =>
    have made : (tree.newInode files).Named good := named
    exact named.settle fun next added => made.add (by simp) makes added
  | unlink | rmdir =>
    refine named.settle fun next removed => ?_
    split at removed
    next => exact named.remove removed
    next => cases removed
  | access path => exact named
  | getattr | list | opened | closed =>
    simp only [FileSystem.call]
    split <;> exact named
  | changed fd change => exact named.write _ change
  | changedAt path change => exact named.write _ change

end FileSystem.Named

end Names

end Akiso.FileTree
