import Akiso.Shared.LinkedList

set_option autoImplicit false

namespace Akiso.LinkedList

variable {V A : Type}

namespace Memory

variable {memory other : Memory V A} {pointer address : Nat} {list before after : List Nat}

section Lists

variable [DecidableEq V] {lists : V → List Nat} {name : V} {node : Node A}

theorem load_isSome_put (memory : Memory V A) (place other : Place V) (pointer : Nat) :
    ((memory.put place pointer).load other).isSome = (memory.load other).isSome := by
  cases other with
  | head name => cases place <;> rfl
  | next address =>
    cases place with
    | head => rfl
    | next here => by_cases same : address = here <;> simp [load, put, setNext, same]

theorem store_eq {place : Place V} (loaded : (memory.load place).isSome) (pointer : Nat) :
    memory.store place pointer = some (memory.put place pointer) := by
  simp [store, loaded]

def unlink (memory : Memory V A) (place : Place V) (address next : Nat) : Memory V A :=
  (memory.put place next).put (.next address) 0

theorem removeFrom_none (memory : Memory V A) {matching : A → Option Bool} (fuel : Nat)
    (place : Place V) (loaded : memory.load place = some pointer)
    (chain : memory.Chain pointer list)
    (passed : ∀ address ∈ list, (memory.value address).bind matching = some false)
    (enough : list.length < fuel) : memory.removeFrom matching fuel place = some (0, memory) := by
  induction fuel generalizing place pointer list with
  | zero => omega
  | succ fuel ih =>
    cases list with
    | nil =>
      obtain rfl : pointer = 0 := chain
      simp [removeFrom, loaded]
    | cons address rest =>
      have positive := chain.ne_zero address (by simp)
      have here := passed address (by simp)
      obtain ⟨rfl, node, found, chain⟩ := chain
      have missed : matching node.value = some false := by simpa [value, found] using here
      have onward := ih (.next pointer) (by simp [load, found]) chain
        (fun later member => passed later (by simp [member])) (by simpa using enough)
      simp [removeFrom, loaded, positive, found, missed, onward]

theorem removeFrom_some (memory : Memory V A) {matching : A → Option Bool} (fuel : Nat)
    (place : Place V) (loaded : memory.load place = some pointer)
    (chain : memory.Chain pointer (before ++ address :: after))
    (passed : ∀ earlier ∈ before, (memory.value earlier).bind matching = some false)
    (found : memory.nodes address = some node) (matched : matching node.value = some true)
    (enough : before.length < fuel) :
    memory.removeFrom matching fuel place =
      some (address, memory.unlink (placeAfter place before) address node.next) := by
  induction fuel generalizing place pointer before with
  | zero => omega
  | succ fuel ih =>
    cases before with
    | nil =>
      have positive := chain.ne_zero address (by simp)
      obtain ⟨rfl, -⟩ := chain
      have placed : (memory.load place).isSome := by simp [loaded]
      have own : ((memory.put place node.next).load (.next pointer)).isSome := by
        rw [load_isSome_put]
        simp [load, found]
      simp [removeFrom, loaded, positive, found, matched, store_eq placed, store_eq own, unlink,
        placeAfter]
    | cons first before =>
      have positive := chain.ne_zero first (by simp)
      have here := passed first (by simp)
      obtain ⟨rfl, head, foundHead, chain⟩ := chain
      have missed : matching head.value = some false := by simpa [value, foundHead] using here
      have onward := ih (.next pointer) (by simp [load, foundHead]) chain
        (fun later member => passed later (by simp [member])) (by simpa using enough)
      simp [removeFrom, loaded, positive, foundHead, missed, onward, placeAfter_cons]

theorem Represents.chain_put (represents : memory.Represents lists) {back tail : List Nat}
    (split : lists name = before ++ back) {next : Nat} (onward : memory.Chain next tail)
    (apart : ∀ address ∈ before, address ∉ tail) :
    (memory.put (placeAfter (.head name) before) next).Chain
      ((memory.put (placeAfter (.head name) before) next).heads name) (before ++ tail) := by
  have chain := represents.chains name
  have nodup := represents.nodup name
  rw [split] at chain nodup
  rcases List.eq_nil_or_concat before with rfl | ⟨front, last, rfl⟩
  · have head : (memory.put (placeAfter (.head name) []) next).heads name = next := by
      simp [placeAfter, put, setHead]
    rw [head]
    exact onward.congr fun _ _ => rfl
  · simp only [List.concat_eq_append, List.append_assoc, List.singleton_append]
      at chain nodup apart ⊢
    have place : placeAfter (.head name) (front ++ [last]) = .next last := by simp [placeAfter]
    rw [place]
    have outside : last ∉ front := fun member =>
      (List.nodup_append.mp nodup).2.2 last member last (by simp) rfl
    refine Chain.splice chain outside (onward.setNext_outside (apart last (by simp)) next)

theorem Represents.change (represents : memory.Represents lists) {changed : Memory V A}
    (heads : ∀ other, other ≠ name → changed.heads other = memory.heads other)
    (nodes : ∀ other, other ≠ name → ∀ address ∈ lists other,
      changed.nodes address = memory.nodes address)
    (chain : changed.Chain (changed.heads name) list) (nodup : list.Nodup)
    (apart : ∀ other, other ≠ name → list.Disjoint (lists other)) :
    changed.Represents (Function.update lists name list) := by
  constructor
  · intro other
    by_cases same : other = name
    · subst same
      simpa using chain
    · rw [Function.update_of_ne same, heads other same]
      exact (represents.chains other).congr (nodes other same)
  · intro other
    by_cases same : other = name
    · subst same
      simpa using nodup
    · simpa [Function.update_of_ne same] using represents.nodup other
  · intro first second different
    by_cases here : first = name
    · subst here
      simpa [Function.update_of_ne (Ne.symm different)] using apart second (Ne.symm different)
    · by_cases there : second = name
      · subst there
        rw [Function.update_of_ne here, Function.update_self]
        exact fun _ early late => apart first here late early
      · simpa [Function.update_of_ne here, Function.update_of_ne there] using
          represents.apart first second different

theorem Represents.put_other (represents : memory.Represents lists) (inside : before ⊆ lists name)
    (next : Nat) {other : V} (different : other ≠ name) :
    (memory.put (placeAfter (.head name) before) next).heads other = memory.heads other ∧
      ∀ address ∈ lists other,
        (memory.put (placeAfter (.head name) before) next).nodes address =
          memory.nodes address := by
  rcases List.eq_nil_or_concat before with rfl | ⟨front, last, rfl⟩
  · simp [placeAfter, put, setHead, different]
  · have place : placeAfter (.head name) (front.concat last) = .next last := by simp [placeAfter]
    have member : last ∈ lists name := inside (by simp)
    rw [place]
    refine ⟨rfl, fun address listed => memory.setNext_of_ne next ?_⟩
    rintro rfl
    exact represents.apart other name different listed member

theorem Represents.addLast (represents : memory.Represents lists) (name : V)
    (loose : memory.Loose lists address) :
    ∃ changed, memory.addLast name address = some changed ∧ changed.value = memory.value ∧
      changed.Represents (Function.update lists name (lists name ++ [address])) := by
  obtain ⟨node, found, ended⟩ := loose.ended
  have chain := represents.chains name
  have enough := Nat.lt_succ_of_le (chain.length_le (represents.nodup name))
  have place := memory.lastPlace_eq (memory.limit + 1) (.head name) rfl chain enough
  have loaded : (memory.load (placeAfter (.head name) (lists name))).isSome := by
    rcases List.eq_nil_or_concat (lists name) with none | ⟨front, last, split⟩
    · simp [none, placeAfter, load]
    · obtain ⟨final, there⟩ := represents.lookup (by simp [split] : last ∈ lists name)
      simp [split, placeAfter, load, there]
  refine ⟨memory.put (placeAfter (.head name) (lists name)) address, ?_, value_put _ _ _, ?_⟩
  · simp [Memory.addLast, place, store_eq loaded]
  have single : memory.Chain address [address] := ⟨rfl, node, found, ended⟩
  refine represents.change (fun other different => ?_) (fun other different => ?_) ?_ ?_ ?_
  · exact (represents.put_other (List.Subset.refl _) address different).1
  · exact (represents.put_other (List.Subset.refl _) address different).2
  · refine represents.chain_put (List.append_nil _).symm single fun earlier member => ?_
    rw [List.mem_singleton]
    rintro rfl
    exact loose.outside name member
  · refine List.nodup_append.mpr ⟨represents.nodup name, by simp, ?_⟩
    rintro earlier member _ single rfl
    rw [List.mem_singleton] at single
    exact loose.outside name (single ▸ member)
  · intro other different
    simp only [List.disjoint_append_left, List.singleton_disjoint]
    exact ⟨represents.apart name other (Ne.symm different), loose.outside other⟩

theorem Represents.addFirst (represents : memory.Represents lists) (name : V)
    (loose : memory.Loose lists address) :
    ∃ changed, memory.addFirst name address = some changed ∧ changed.value = memory.value ∧
      changed.Represents (Function.update lists name (address :: lists name)) := by
  obtain ⟨node, found, ended⟩ := loose.ended
  have chain := represents.chains name
  have outside := loose.outside name
  have nodup : (address :: lists name).Nodup := List.nodup_cons.mpr ⟨outside, represents.nodup name⟩
  have apart (other : V) (different : other ≠ name) :
      (address :: lists name).Disjoint (lists other) :=
    List.disjoint_cons_left.mpr
      ⟨loose.outside other, represents.apart name other (Ne.symm different)⟩
  by_cases empty : memory.heads name = 0
  next =>
    have none : lists name = [] := by
      cases split : lists name with
      | nil => rfl
      | cons first rest =>
        rw [split] at chain
        exact absurd (chain.1.symm.trans empty) (chain.ne_zero first (by simp))
    refine ⟨memory.setHead name address, ?_, rfl, represents.change ?_ (fun _ _ _ _ => rfl) ?_ nodup
      apart⟩
    · simp [Memory.addFirst, empty, store, load, put]
    · exact fun other different => Function.update_of_ne different _ _
    · rw [none]
      exact ⟨by simp [setHead], node, found, ended⟩
  next =>
    have own : (memory.load (.next address)).isSome := by simp [load, found]
    refine ⟨(memory.setNext address (memory.heads name)).setHead name address, ?_, ?_,
      represents.change ?_ ?_ ?_ nodup apart⟩
    · simp only [Memory.addFirst, empty, if_false, store_eq own, put]
      simp [store, load, put]
    · exact value_put memory (.next address) _
    · exact fun other different => Function.update_of_ne different _ _
    · intro other different listed member
      refine memory.setNext_of_ne _ ?_
      rintro rfl
      exact loose.outside other member
    · have head : ((memory.setNext address (memory.heads name)).setHead name address).heads name =
          address := by
        simp [setHead]
      rw [head]
      refine ⟨rfl, _, setNext_self found, ?_⟩
      exact (chain.setNext_outside outside _).congr fun _ _ => rfl

theorem Represents.remove_none (represents : memory.Represents lists) {matching : A → Option Bool}
    (passed : ∀ address ∈ lists name, (memory.value address).bind matching = some false) :
    memory.remove matching name = some (0, memory) :=
  memory.removeFrom_none _ _ rfl (represents.chains name) passed
    (Nat.lt_succ_of_le ((represents.chains name).length_le (represents.nodup name)))

theorem Represents.remove_some (represents : memory.Represents lists) {matching : A → Option Bool}
    (split : lists name = before ++ address :: after)
    (passed : ∀ earlier ∈ before, (memory.value earlier).bind matching = some false)
    (matched : (memory.value address).bind matching = some true) :
    ∃ changed, memory.remove matching name = some (address, changed) ∧
      changed.value = memory.value ∧
      changed.Represents (Function.update lists name (before ++ after)) ∧
      changed.Loose (Function.update lists name (before ++ after)) address := by
  have chain := represents.chains name
  have nodup := represents.nodup name
  have long := chain.length_le nodup
  rw [split] at chain nodup long
  obtain ⟨node, found⟩ := chain.allocated address (by simp)
  have hits : matching node.value = some true := by simpa [value, found] using matched
  obtain ⟨frontNodup, backNodup, across⟩ := List.nodup_append.mp nodup
  obtain ⟨notAfter, afterNodup⟩ := List.nodup_cons.mp backNodup
  have notBefore : address ∉ before := fun member => across address member address (by simp) rfl
  have notAfterBefore : ∀ earlier ∈ before, earlier ∉ after := fun earlier member late =>
    across earlier member earlier (by simp [late]) rfl
  have inside : before ⊆ lists name := by simp [split]
  have outside : ∀ other, address ∉ Function.update lists name (before ++ after) other := by
    intro other
    by_cases same : other = name
    · subst same
      simp [notBefore, notAfter]
    · rw [Function.update_of_ne same]
      exact represents.apart name other (Ne.symm same) (by simp [split])
  refine ⟨memory.unlink (placeAfter (.head name) before) address node.next, ?_, ?_, ?_, outside, ?_⟩
  · refine memory.removeFrom_some _ _ rfl (split ▸ represents.chains name) passed found hits ?_
    simp at long
    omega
  · rw [unlink, value_put, value_put]
  · refine represents.change (fun other different => ?_) (fun other different => ?_) ?_ ?_ ?_
    · exact (represents.put_other inside node.next different).1
    · intro listed member
      have kept := (represents.put_other inside node.next different).2 listed member
      refine (setNext_of_ne _ 0 ?_).trans kept
      rintro rfl
      exact represents.apart name other (Ne.symm different) (by simp [split]) member
    · have linked := represents.chain_put split (chain.tail found) notAfterBefore
      exact linked.setNext_outside (by simp [notBefore, notAfter]) 0
    · exact nodup.sublist ((List.sublist_cons_self address after).append_left before)
    · intro other different
      refine List.disjoint_of_subset_left ?_ (represents.apart name other (Ne.symm different))
      rw [split]
      intro listed member
      simp only [List.mem_append, List.mem_cons] at member ⊢
      tauto
  · have present : (memory.put (placeAfter (.head name) before) node.next).value address =
        some node.value := by
      rw [value_put, value, found, Option.map_some]
    obtain ⟨linked, there, -⟩ := Option.map_eq_some_iff.mp present
    exact ⟨_, setNext_self there, rfl⟩

end Lists

theorem allocate_some {value : A} (made : memory.allocate address value = some other) :
    memory.nodes address = none ∧ address ≠ 0 ∧ other.heads = memory.heads ∧
      other.nodes = Function.update memory.nodes address (some { value, next := 0 }) := by
  unfold allocate at made
  split at made
  next => simp at made
  next positive =>
    split at made
    next => simp at made
    next free =>
      obtain rfl := Option.some.inj made
      exact ⟨by simpa using free, positive, rfl, rfl⟩

theorem value_allocate {value : A} (made : memory.allocate address value = some other) :
    other.value = Function.update memory.value address (some value) := by
  obtain ⟨-, -, -, nodes⟩ := allocate_some made
  funext place
  by_cases same : place = address
  · subst same
    simp [Memory.value, nodes]
  · simp [Memory.value, nodes, same]

variable {lists : V → List Nat}

theorem Represents.outside_of_free (represents : memory.Represents lists)
    (free : memory.value address = none) (name : V) : address ∉ lists name := by
  intro member
  obtain ⟨node, found⟩ := represents.lookup member
  simp [value, found] at free

theorem Represents.frame (represents : memory.Represents lists) (heads : other.heads = memory.heads)
    (nodes : ∀ name, ∀ address ∈ lists name, other.nodes address = memory.nodes address) :
    other.Represents lists := by
  refine ⟨fun name => ?_, represents.nodup, represents.apart⟩
  rw [heads]
  exact (represents.chains name).congr (nodes name)

theorem Represents.allocate (represents : memory.Represents lists) {value : A}
    (made : memory.allocate address value = some other) :
    other.Represents lists ∧ other.Loose lists address := by
  obtain ⟨free, -, heads, nodes⟩ := allocate_some made
  have outside := represents.outside_of_free (by simp [Memory.value, free] :
    memory.value address = none)
  refine ⟨represents.frame heads fun name listed member => ?_, outside, { value, next := 0 }, ?_,
    rfl⟩
  · rw [nodes, Function.update_of_ne]
    rintro rfl
    exact outside name member
  · rw [nodes, Function.update_self]

theorem allocate_isSome (memory : Memory V A) (value : A) (positive : address ≠ 0)
    (free : memory.value address = none) : (memory.allocate address value).isSome := by
  have absent : ¬ (memory.nodes address).isSome := by simpa [Memory.value] using free
  simp [allocate, positive, absent]

theorem Represents.free (represents : memory.Represents lists)
    (outside : ∀ name, address ∉ lists name) (present : (memory.value address).isSome) :
    ∃ changed, memory.free address = some changed ∧ changed.Represents lists ∧
      changed.value = Function.update memory.value address none := by
  have found : (memory.nodes address).isSome := by simpa [Memory.value] using present
  refine ⟨memory.release address, by simp [Memory.free, found], ?_, ?_⟩
  · refine represents.frame rfl fun name listed member => Function.update_of_ne ?_ _ _
    rintro rfl
    exact outside name member
  · funext place
    by_cases same : place = address
    · subst same
      simp [Memory.value, release]
    · simp [Memory.value, release, same]

end Memory

end Akiso.LinkedList
