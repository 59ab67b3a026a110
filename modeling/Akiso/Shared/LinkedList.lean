import Mathlib.Data.List.Perm.Subperm
import Mathlib.Logic.Function.Basic

set_option autoImplicit false

/-!
# Singly linked lists in a memory

Nodes with a next pointer, head variables, and the pointers to pointers by which lists are
changed in place. 0 is NULL; `none` is an access to memory that is not allocated.
-/

namespace Akiso.LinkedList

variable {V A : Type}

structure Node (A : Type) where
  value : A
  next : Nat
  deriving DecidableEq, Repr

structure Memory (V A : Type) where
  heads : V → Nat
  nodes : Nat → Option (Node A)
  -- nothing is allocated from here on
  limit : Nat
  null : nodes 0 = none
  bounded : ∀ address, limit ≤ address → nodes address = none

def Memory.empty : Memory V A where
  heads _ := 0
  nodes _ := none
  limit := 0
  null := rfl
  bounded _ _ := rfl

/-- What a pointer to a pointer points to: a head variable, or the next field of a node. -/
inductive Place (V : Type) where
  | head (name : V)
  | next (address : Nat)

namespace Memory

def value (memory : Memory V A) (address : Nat) : Option A :=
  (memory.nodes address).map Node.value

def setHead [DecidableEq V] (memory : Memory V A) (name : V) (pointer : Nat) : Memory V A :=
  { memory with heads := Function.update memory.heads name pointer }

def setNext (memory : Memory V A) (address pointer : Nat) : Memory V A where
  heads := memory.heads
  nodes other :=
    if other = address then (memory.nodes other).map fun node => { node with next := pointer }
    else memory.nodes other
  limit := memory.limit
  null := by simp [memory.null]
  bounded other beyond := by simp [memory.bounded other beyond]

def load (memory : Memory V A) : Place V → Option Nat
  | .head name => some (memory.heads name)
  | .next address => (memory.nodes address).map Node.next

def put [DecidableEq V] (memory : Memory V A) : Place V → Nat → Memory V A
  | .head name, pointer => memory.setHead name pointer
  | .next address, pointer => memory.setNext address pointer

def store [DecidableEq V] (memory : Memory V A) (place : Place V) (pointer : Nat) :
    Option (Memory V A) :=
  if (memory.load place).isSome then some (memory.put place pointer) else none

def allocate (memory : Memory V A) (address : Nat) (value : A) : Option (Memory V A) :=
  if positive : address = 0 then none
  else if (memory.nodes address).isSome then none
  else some
    { heads := memory.heads
      nodes := Function.update memory.nodes address (some { value, next := 0 })
      limit := max memory.limit (address + 1)
      null := by rw [Function.update_of_ne (Ne.symm positive)]; exact memory.null
      bounded := fun other beyond => by
        have different : other ≠ address := by omega
        rw [Function.update_of_ne different]
        exact memory.bounded other (by omega) }

def release (memory : Memory V A) (address : Nat) : Memory V A where
  heads := memory.heads
  nodes := Function.update memory.nodes address none
  limit := memory.limit
  null := by by_cases same : address = 0 <;> simp [Function.update_apply, memory.null]
  bounded other beyond := by simp [Function.update_apply, memory.bounded other beyond]

def free (memory : Memory V A) (address : Nat) : Option (Memory V A) :=
  if (memory.nodes address).isSome then some (memory.release address) else none

-- while (*head != NULL) head = &((*head)->next)
def lastPlace (memory : Memory V A) : Nat → Place V → Option (Place V)
  | 0, _ => none
  | fuel + 1, place => do
    let pointer ← memory.load place
    if pointer = 0 then some place else lastPlace memory fuel (.next pointer)

def addLast [DecidableEq V] (memory : Memory V A) (name : V) (address : Nat) :
    Option (Memory V A) := do
  let place ← memory.lastPlace (memory.limit + 1) (.head name)
  memory.store place address

-- The next field of the node is left alone in front of an empty list.
def addFirst [DecidableEq V] (memory : Memory V A) (name : V) (address : Nat) :
    Option (Memory V A) :=
  if memory.heads name = 0 then memory.store (.head name) address
  else do
    let memory ← memory.store (.next address) (memory.heads name)
    memory.store (.head name) address

def removeFrom [DecidableEq V] (memory : Memory V A) (matching : A → Option Bool) :
    Nat → Place V → Option (Nat × Memory V A)
  | 0, _ => none
  | fuel + 1, place => do
    let pointer ← memory.load place
    if pointer = 0 then some (0, memory)
    else
      let node ← memory.nodes pointer
      if ← matching node.value then
        let memory ← memory.store place node.next
        let memory ← memory.store (.next pointer) 0
        some (pointer, memory)
      else removeFrom memory matching fuel (.next pointer)

def remove [DecidableEq V] (memory : Memory V A) (matching : A → Option Bool) (name : V) :
    Option (Nat × Memory V A) :=
  memory.removeFrom matching (memory.limit + 1) (.head name)

def Chain (memory : Memory V A) : Nat → List Nat → Prop
  | pointer, [] => pointer = 0
  | pointer, address :: rest =>
    pointer = address ∧ ∃ node, memory.nodes address = some node ∧ Chain memory node.next rest

structure Represents (memory : Memory V A) (lists : V → List Nat) : Prop where
  chains : ∀ name, memory.Chain (memory.heads name) (lists name)
  nodup : ∀ name, (lists name).Nodup
  apart : ∀ name other, name ≠ other → (lists name).Disjoint (lists other)

structure Loose (memory : Memory V A) (lists : V → List Nat) (address : Nat) : Prop where
  outside : ∀ name, address ∉ lists name
  ended : ∃ node, memory.nodes address = some node ∧ node.next = 0

variable {memory other : Memory V A} {pointer address : Nat} {list before after : List Nat}

theorem Chain.congr (chain : memory.Chain pointer list)
    (same : ∀ address ∈ list, other.nodes address = memory.nodes address) :
    other.Chain pointer list := by
  induction list generalizing pointer with
  | nil => exact chain
  | cons address rest ih =>
    obtain ⟨rfl, node, found, chain⟩ := chain
    refine ⟨rfl, node, ?_, ih chain fun later member => same later (by simp [member])⟩
    rw [same pointer (by simp), found]

theorem Chain.allocated (chain : memory.Chain pointer list) :
    ∀ address ∈ list, ∃ node, memory.nodes address = some node := by
  induction list generalizing pointer with
  | nil => simp
  | cons address rest ih =>
    obtain ⟨rfl, node, found, chain⟩ := chain
    simpa [found] using ih chain

theorem Chain.ne_zero (chain : memory.Chain pointer list) : ∀ address ∈ list, address ≠ 0 := by
  rintro address member rfl
  obtain ⟨node, found⟩ := chain.allocated 0 member
  simp [memory.null] at found

theorem Chain.length_le (chain : memory.Chain pointer list) (nodup : list.Nodup) :
    list.length ≤ memory.limit := by
  have below : list ⊆ List.range memory.limit := by
    intro address member
    obtain ⟨node, found⟩ := chain.allocated address member
    by_contra beyond
    have absent := memory.bounded address (by simpa using beyond)
    simp [absent] at found
  simpa using (List.subperm_of_subset nodup below).length_le

theorem setNext_of_ne (memory : Memory V A) {address : Nat} (pointer : Nat) {other : Nat}
    (different : other ≠ address) : (memory.setNext address pointer).nodes other =
      memory.nodes other := by
  simp [setNext, different]

theorem setNext_self {node : Node A} (found : memory.nodes address = some node) :
    (memory.setNext address pointer).nodes address = some { node with next := pointer } := by
  simp [setNext, found]

@[simp] theorem value_put [DecidableEq V] (memory : Memory V A) (place : Place V) (pointer : Nat) :
    (memory.put place pointer).value = memory.value := by
  funext other
  cases place with
  | head name => rfl
  | next address =>
    by_cases same : other = address
    · simp [value, put, setNext, same, Function.comp_def]
    · simp [value, put, setNext, same]

theorem Chain.setNext_outside (chain : memory.Chain pointer list) (outside : address ∉ list)
    (next : Nat) : (memory.setNext address next).Chain pointer list :=
  chain.congr fun _ member => memory.setNext_of_ne next fun same => outside (same ▸ member)

theorem Chain.splice {next : Nat} {rest tail : List Nat}
    (chain : memory.Chain pointer (before ++ address :: rest)) (outside : address ∉ before)
    (onward : (memory.setNext address next).Chain next tail) :
    (memory.setNext address next).Chain pointer (before ++ address :: tail) := by
  induction before generalizing pointer with
  | nil =>
    obtain ⟨rfl, node, found, -⟩ := chain
    exact ⟨rfl, _, setNext_self found, onward⟩
  | cons first before ih =>
    obtain ⟨rfl, node, found, chain⟩ := chain
    simp only [List.mem_cons, not_or] at outside
    refine ⟨rfl, node, ?_, ih chain outside.2⟩
    rw [setNext_of_ne memory next (Ne.symm outside.1), found]

theorem Chain.tail (chain : memory.Chain pointer (before ++ address :: after)) {node : Node A}
    (found : memory.nodes address = some node) : memory.Chain node.next after := by
  induction before generalizing pointer with
  | nil =>
    obtain ⟨rfl, same, here, onward⟩ := chain
    have only : same = node := Option.some.inj (here.symm.trans found)
    exact only ▸ onward
  | cons first before ih =>
    obtain ⟨_, _, _, chain⟩ := chain
    exact ih chain

theorem Chain.pointer_eq (chain : memory.Chain pointer list) : pointer = list.headD 0 := by
  cases list with
  | nil => exact chain
  | cons address rest => exact chain.1

def placeAfter (place : Place V) (list : List Nat) : Place V :=
  match list.getLast? with
  | none => place
  | some last => .next last

theorem placeAfter_cons (place : Place V) (address : Nat) (rest : List Nat) :
    placeAfter place (address :: rest) = placeAfter (.next address) rest := by
  unfold placeAfter
  cases rest with
  | nil => rfl
  | cons => simp [List.getLast?_cons]

theorem lastPlace_eq (memory : Memory V A) (fuel : Nat) (place : Place V)
    (loaded : memory.load place = some pointer) (chain : memory.Chain pointer list)
    (enough : list.length < fuel) : memory.lastPlace fuel place = some (placeAfter place list) := by
  induction fuel generalizing place pointer list with
  | zero => omega
  | succ fuel ih =>
    cases list with
    | nil =>
      obtain rfl : pointer = 0 := chain
      simp [lastPlace, loaded, placeAfter]
    | cons address rest =>
      have positive := chain.ne_zero address (by simp)
      obtain ⟨rfl, node, found, chain⟩ := chain
      have onward := ih (.next pointer) (by simp [load, found]) chain (by simpa using enough)
      simp [lastPlace, loaded, positive, onward, placeAfter_cons]

theorem Represents.lookup {lists : V → List Nat} {name : V}
    (represents : memory.Represents lists)
    (member : address ∈ lists name) :
    ∃ node, memory.nodes address = some node :=
  (represents.chains name).allocated address member

theorem Represents.next_eq {lists : V → List Nat} {name : V} (represents : memory.Represents lists)
    (split : lists name = before ++ address :: after) {node : Node A}
    (found : memory.nodes address = some node) : node.next = after.headD 0 :=
  ((split ▸ represents.chains name).tail found).pointer_eq

end Memory

end Akiso.LinkedList
