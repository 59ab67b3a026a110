import Akiso.Asm.Dispatch

set_option autoImplicit false

namespace Akiso.Sweet16

open Mos6502

namespace Fix

structure Resident (memory : Memory) : Prop where
  handlers : image.Installed memory
  round : roundImage.Installed memory
  rest : restImage.Installed memory

def CodeCell (address : Word) : Prop :=
  (image address).isSome ∨ (roundImage address).isSome ∨ (restImage address).isSome

instance (address : Word) : Decidable (CodeCell address) :=
  inferInstanceAs (Decidable (_ ∨ _ ∨ _))

def handlerRange (address : Word) : Bool :=
  decide (0xA717 ≤ address.toNat ∧ address.toNat < 0xA760 ∨
    0xA76A ≤ address.toNat ∧ address.toNat < 0xA786 ∨ 0xC023 ≤ address.toNat)

def roundRange (address : Word) : Bool :=
  decide (0xA698 ≤ address.toNat ∧ address.toNat < 0xA6AE ∨
    0xA6B9 ≤ address.toNat ∧ address.toNat < 0xA6C7 ∨
    0xA6E3 ≤ address.toNat ∧ address.toNat < 0xA703 ∨
    0xA7AB ≤ address.toNat ∧ address.toNat < 0xA7DC)

set_option maxRecDepth 2000 in
theorem image_outside {address : Word} (other : handlerRange address = false) :
    image address = none :=
  listing.image_none (fun place => !handlerRange place) rfl (by simp [other])

set_option maxRecDepth 2000 in
theorem round_outside {address : Word} (other : roundRange address = false) :
    roundImage address = none := by
  have code : roundListing.image address = none :=
    roundListing.image_none (fun place => !roundRange place) rfl (by simp [other])
  have table : tables[(address - optbl).toNat]? = none := by
    apply List.getElem?_eq_none
    have length : tables.length = 32 := by decide
    simp only [roundRange, decide_eq_false_iff_not, not_or] at other
    have far : 32 ≤ (address - optbl).toNat := by
      rw [optbl]
      bv_omega
    omega
  rw [roundImage, code, table]
  rfl

set_option maxRecDepth 2000 in
theorem image_apart {address : Word} (here : roundRange address = true) : image address = none :=
  listing.image_none roundRange rfl here

set_option maxRecDepth 2000 in
theorem rest_apart {address : Word} (here : (handlerRange address || roundRange address) = true) :
    restImage address = none :=
  restListing.image_none (fun place => handlerRange place || roundRange place) rfl here

set_option maxRecDepth 2000 in
theorem codeCell_high {address : Word} (code : CodeCell address) : 0xA689 ≤ address.toNat := by
  by_contra low
  have handlers : handlerRange address = false := by
    simp only [handlerRange, decide_eq_false_iff_not]
    omega
  have round : roundRange address = false := by
    simp only [roundRange, decide_eq_false_iff_not]
    omega
  have rest : restImage address = none :=
    restListing.image_none (fun place => decide (place.toNat < 0xA689)) rfl
      (decide_eq_true (by omega))
  simp [CodeCell, image_outside handlers, round_outside round, rest] at code

theorem codeCell_beyond {address : Word} (code : CodeCell address) : 512 ≤ address.toNat := by
  have := codeCell_high code
  omega

theorem Resident.congr {memory other : Memory} (resident : Resident memory)
    (same : ∀ address, CodeCell address → other address = memory address) : Resident other :=
  ⟨resident.handlers.congr fun address here => same address (.inl here),
    resident.round.congr fun address here => same address (.inr (.inl here)),
    resident.rest.congr fun address here => same address (.inr (.inr here))⟩

def interpreter (memory : Memory) : Memory :=
  restImage.load (image.load (roundImage.load memory))

theorem interpreter_resident (memory : Memory) : Resident (interpreter memory) where
  rest := Image.installed_load _ _
  handlers := fun address byte here => by
    have inside : handlerRange address = true := by
      by_contra outside
      simp [image_outside (Bool.eq_false_iff.mpr outside)] at here
    rw [interpreter, Image.load_of_none (rest_apart (by simp [inside]))]
    exact Image.installed_load _ _ _ _ here
  round := fun address byte here => by
    have inside : roundRange address = true := by
      by_contra outside
      simp [round_outside (Bool.eq_false_iff.mpr outside)] at here
    rw [interpreter, Image.load_of_none (rest_apart (by simp [inside])),
      Image.load_of_none (image_apart inside)]
    exact Image.installed_load _ _ _ _ here

theorem interpreter_of_free {address : Word} (free : ¬ CodeCell address) (memory : Memory) :
    interpreter memory address = memory address := by
  simp only [CodeCell, not_or, Option.not_isSome_iff_eq_none] at free
  rw [interpreter, Image.load_of_none free.2.2, Image.load_of_none free.1,
    Image.load_of_none free.2.1]

end Fix

-- What the interpreter writes apart from its instructions: R16, and bytes of the stack from a level
-- on. A round pushes four.
def Work (depth : Nat) (s : Byte) (address : Word) : Prop :=
  address = r16l ∨ address = r16h ∨
    ∃ pushed < depth, address = stackAddress (s - BitVec.ofNat 8 pushed)

instance (depth : Nat) (s : Byte) (address : Word) : Decidable (Work depth s address) :=
  inferInstanceAs (Decidable (_ ∨ _ ∨ _))

theorem work_scratch {depth : Nat} {s : Byte} {address : Word} (work : Work depth s address) :
    Scratch address := by
  rcases work with rfl | rfl | ⟨pushed, -, rfl⟩
  · exact .inl rfl
  · exact .inr (.inl rfl)
  · exact .inr (.inr (stackPage_stackAddress _))

theorem shows_work (depth : Nat) (s : Byte) : Shows (Work depth s) :=
  fun address register work => shows_scratch address register (work_scratch work)

theorem workspace_work (s : Byte) : Workspace (Work 4 s) s where
  shows := shows_work 4 s
  low := .inl rfl
  high := .inr (.inl rfl)
  stack := fun pushed inside => .inr (.inr ⟨pushed, inside, rfl⟩)

theorem not_work_code {depth : Nat} {s : Byte} {address : Word} (code : Fix.CodeCell address) :
    ¬ Work depth s address := by
  intro work
  have beyond := Fix.codeCell_beyond code
  rcases work_scratch work with rfl | rfl | page
  · exact absurd beyond (by decide)
  · exact absurd beyond (by decide)
  · exact absurd page.2 (by omega)

namespace Fix

variable {cpu : Cpu} {hidden own : Word → Prop} {n : BitVec 4} {operation : RegisterOp}

structure AtOperation (operation : RegisterOp) (n : BitVec 4) (cpu : Cpu) : Prop where
  resident : Resident cpu.memory
  entered : cpu.pc = operation.entry
  indexed : cpu.x = index n
  doubled : cpu.y = operation.doubled
  binary : cpu.p.decimal = false
  carry : cpu.p.carry = false
  negative : cpu.p.negative = (before operation.entry).msb

theorem operation_done (start : AtOperation operation n cpu) (workspace : Workspace hidden cpu.s)
    (constant : operation = .set → n ≠ 15#4 ∧ register cpu.memory r15 + 1#16 ≠ high cpu.x)
    (apart : ∀ handler, operation = .indirect handler →
      ∀ address ∈ dereferenced cpu.memory cpu.x handler, ¬ hidden address ∧ ¬ CodeCell address) :
    ∃ last, Arrives hidden cpu (operate cpu.memory cpu.x operation) last := by
  obtain ⟨⟨handlers, -, rest⟩, entered, indexed, doubled, binary, carry, negative⟩ := start
  cases operation with
  | set =>
    obtain ⟨other, free⟩ := constant rfl
    exact (set_done rest indexed hidden entered binary negative doubled other free).arrives
  | ld => exact (ld_done rest indexed hidden entered).arrives
  | st => exact (st_done rest indexed hidden entered).arrives
  | indirect handler =>
    have small : cpu.x.toNat ≤ 30 := indexed ▸ index_small n
    refine (performs_hidden handler handlers workspace entered small fun address listed =>
      ?_).arrives
    obtain ⟨shown, free⟩ := apart handler rfl address listed
    exact ⟨shown, Option.not_isSome_iff_eq_none.mp fun here => free (.inl here)⟩
  | lddat => exact (lddat_done rest hidden entered).arrives
  | stdat => exact (stdat_done rest hidden entered).arrives
  | add => exact (add_done rest indexed hidden entered binary carry).arrives
  | sub => exact (sub_done rest indexed hidden entered binary).arrives
  | cpr => exact (subtract_done rest indexed hidden entered binary r13 doubled (.inr rfl)).arrives
  | inr => exact (inr_done hidden handlers entered).arrives
  | dcr => exact (dcr_done hidden handlers entered).arrives

theorem increment_code {address : Word} (memory : Memory) (code : CodeCell address) :
    increment memory r15 address = memory address :=
  setRegister_apart memory (by decide) _ (by have := codeCell_beyond code; omega)

theorem marked_code {address : Word} (memory : Memory) (n : BitVec 4) (code : CodeCell address) :
    marked memory n address = memory address :=
  update_apart memory _ (by have := codeCell_beyond code; omega)

theorem Resident.same {memory other : Memory} {depth : Nat} {s : Byte}
    (resident : Resident memory) (same : SameOutside (Work depth s) memory other) :
    Resident other :=
  resident.congr fun address code => same address (not_work_code code)

theorem Resident.increment {memory : Memory} (resident : Resident memory) :
    Resident (increment memory r15) :=
  resident.congr fun _ code => increment_code memory code

theorem Resident.marked {memory : Memory} (resident : Resident memory) (n : BitVec 4) :
    Resident (marked memory n) :=
  resident.congr fun _ code => marked_code memory n code

theorem enters_operation {p : Word} {byte : Byte} (resident : Resident cpu.memory)
    (entered : cpu.pc = sw16c) (binary : cpu.p.decimal = false)
    (counter : register (Sweet16.increment cpu.memory r15) r15 = p)
    (opcode : Sweet16.increment cpu.memory r15 p = byte) (apart : p ≠ stackAddress cpu.s)
    (decoded : decodeOp byte = some (.onRegister operation n)) :
    ∃ first, Executes cpu first ∧ AtOperation operation n first ∧ first.s = cpu.s ∧
      SameOutside (Work 4 cpu.s) (Sweet16.marked (Sweet16.increment cpu.memory r15) n)
        first.memory := by
  obtain ⟨indexed, listed, doubled⟩ := decode_onRegister decoded
  have workspace := workspace_work cpu.s
  have second : Work 4 cpu.s (stackAddress (cpu.s - 1#8)) := workspace.stack 1 (by omega)
  obtain ⟨countedFlags, countedMode, counted⟩ := advance_leads cpu.s resident.round
    (entered ▸ sw16c_code) (entered ▸ (by decide : sw16c + 6#16 = sw16d))
  obtain ⟨gotFlags, gotMode, got⟩ := fetch_leads byte cpu.s counted.installed rfl counter opcode
    apart
  rw [if_neg listed] at got
  have pushed : SameOutside (Work 4 cpu.s) (Sweet16.increment cpu.memory r15)
      (Function.update (Sweet16.increment cpu.memory r15) (stackAddress cpu.s) page) :=
    (SameOutside.refl _ _).update_hidden workspace.stack.first _
  have still := resident.increment.same pushed
  have even : (byte &&& 0xF0#8).getLsbD 2 = false := by simp
  obtain ⟨flags, mode, carry, negative, arrived⟩ := registerOp_leads
    { a := byte &&& 0xF0#8, x := (byte &&& 15#8) <<< 1, y := 0#8, s := cpu.s - 1#8, p := gotFlags,
      pc := registerOp, memory := _ }
    still.rest still.round rfl doubled even rfl (Function.update_self _ _ _)
  have same : SameOutside (Work 4 cpu.s) (Sweet16.marked (Sweet16.increment cpu.memory r15) n)
      (Function.update (Function.update (Function.update (Sweet16.increment cpu.memory r15)
        (stackAddress cpu.s) page) r14h ((byte &&& 15#8) <<< 1)) (stackAddress (cpu.s - 1#8))
        (before operation.entry)) := by
    rw [indexed]
    exact (pushed.update _ _).update_hidden second _
  refine ⟨_, (counted.trans got).executes.trans arrived.executes, ?_, rfl, same⟩
  exact ⟨(resident.increment.marked n).same same, rfl, indexed, rfl,
    by rw [mode, gotMode, countedMode, binary], carry, negative⟩

theorem enters_other {p : Word} {byte : Byte} {op : Op} (resident : Resident cpu.memory)
    (entered : cpu.pc = sw16c)
    (counter : register (Sweet16.increment cpu.memory r15) r15 = p)
    (opcode : Sweet16.increment cpu.memory r15 p = byte) (apart : p ≠ stackAddress cpu.s)
    (decoded : decodeOp byte = some op) (other : ∀ operation n, op ≠ .onRegister operation n) :
    ∃ first, Leads roundImage cpu.s cpu first ∧ first.pc = op.entry ∧ first.s = cpu.s ∧
      first.p.decimal = cpu.p.decimal ∧ first.y = 0#8 ∧ first.a = cpu.memory r14h >>> 1 ∧
      first.p.carry = resultCarry cpu.memory ∧
      SameOutside (Work 4 cpu.s) (Sweet16.increment (Sweet16.increment cpu.memory r15) r15)
        first.memory := by
  obtain ⟨none, number, indexed, listed⟩ := decode_other decoded other
  have workspace := workspace_work cpu.s
  have second : Work 4 cpu.s (stackAddress (cpu.s - 1#8)) := workspace.stack 1 (by omega)
  obtain ⟨flags, decimal, carry, leads⟩ := enters_leads byte op.entry resident.round entered counter
    opcode apart none (fun memory installed => indexed ▸ other_byte installed listed)
    (other_behind listed)
  have pushed : SameOutside (Work 4 cpu.s) (Sweet16.increment cpu.memory r15)
      (fetched cpu.s cpu.memory) := (SameOutside.refl _ _).update_hidden workspace.stack.first _
  exact ⟨_, leads, rfl, rfl, decimal, rfl, rfl, carry,
    (increment_congr (shows_work 4 cpu.s) (by decide) pushed).update_hidden second _⟩

theorem not_work_cellFF (depth : Nat) (s : Byte) : ¬ Work depth s cellFF := by
  intro work
  rcases work_scratch work with same | same | page
  · exact absurd same (by decide)
  · exact absurd same (by decide)
  · exact absurd page (by decide)

theorem branch_arrives {first : Cpu} {memory : Memory} {test : Branch}
    (installed : roundImage.Installed first.memory) (entered : first.pc = test.entry)
    (binary : first.p.decimal = false) (zero : first.y = 0#8)
    (result : first.a = memory r14h >>> 1) (carry : first.p.carry = resultCarry memory)
    (same : SameOutside (Work 4 first.s) memory first.memory)
    (few : (memory r14h >>> 1).toNat ≤ 15) (shown : ¬ Work 4 first.s (register memory r15))
    (sound : test.Sound memory (memory (register memory r15))) :
    ∃ last, Arrives (Work 4 first.s) first (setRegister memory r15 (displaced (register memory r15)
      (memory (register memory r15)) (test.condition memory))) last := by
  have shows := shows_work 4 first.s
  have status : first.memory r14h = memory r14h := same _ (shows _ (by decide))
  have counter := register_congr shows (by decide : r15.toNat ≤ 30) same
  have displacement := same _ shown
  obtain ⟨last, leads, back, s, decimal, written⟩ := routine_done first test installed entered
    (by rw [result, status]) (by rw [carry, resultCarry, resultCarry, status]) zero binary rfl
  refine ⟨last, leads.arrives s (decimal.trans binary.symm) ?_ back⟩
  rw [written, counter, displacement, ← (sound_iff _ _ _ _).mpr sound]
  simp only [tested_same shows same few (not_work_cellFF _ _) test]
  exact setRegister_congr same _

-- A round up to its RTS performs the next instruction.
theorem round_arrives {memory : Memory} (resident : Resident cpu.memory)
    (entered : cpu.pc = sw16c) (binary : cpu.p.decimal = false)
    (works : ∀ address, Work 4 cpu.s address → own address)
    (codes : ∀ address, CodeCell address → own address) (fit : Fit own cpu.memory)
    (interpreted : interpret cpu.memory = some memory) :
    ∃ last, Arrives (Work 4 cpu.s) cpu memory last ∧ Resident last.memory := by
  obtain ⟨op, decoded, last, rfl⟩ := interpret_some interpreted
  have fits := fit op decoded
  have shown {address : Word} (part : address ∈ op.places
      (register (Sweet16.increment cpu.memory r15) r15)) : ¬ Work 4 cpu.s address :=
    fun work => fits.1 address part (works address work)
  have apart : register (Sweet16.increment cpu.memory r15) r15 ≠ stackAddress cpu.s :=
    fun same => shown (mem_places _ op) (same ▸ (workspace_work cpu.s).stack.first)
  suffices ∃ last, Arrives (Work 4 cpu.s) cpu
      (op.effect (Sweet16.increment cpu.memory r15)) last by
    obtain ⟨last, arrives⟩ := this
    refine ⟨last, arrives, resident.congr fun address code => ?_⟩
    rw [arrives.same address (not_work_code code),
      effect_of_owned fits (by have := codeCell_beyond code; omega) (codes address code),
      increment_code _ code]
  cases op with
  | rtn => exact absurd rfl last
  | onRegister operation n =>
    obtain ⟨first, enters, start, s, same⟩ :=
      enters_operation resident entered binary rfl rfl apart decoded
    have shows := shows_work 4 cpu.s
    have counter := register_congr shows (by decide : r15.toNat ≤ 30) same
    have workspace : Workspace (Work 4 cpu.s) first.s := s ▸ workspace_work cpu.s
    obtain ⟨last, arrives⟩ := operation_done start workspace
      (fun set => by
        subst set
        rw [counter, marked_counter, start.indexed]
        exact fits.2)
      (fun handler indirect address listed => by
        subst indirect
        rw [start.indexed, dereferenced_congr shows (index_small n) same] at listed
        exact ⟨fun work => fits.2 address listed (works address work),
          fun code => fits.2 address listed (codes address code)⟩)
    rw [start.indexed] at arrives
    exact ⟨last, arrives.after enters s (start.binary.trans binary.symm)
      (operation_congr shows same fits works)⟩
  | nul =>
    obtain ⟨first, leads, pc, s, decimal, -, -, -, same⟩ :=
      enters_other resident entered rfl rfl apart decoded (by simp)
    have back : roundImage.Code nul [⟨.rts, .implied, 0⟩] := round_code (by decide)
    exact ⟨first, leads.arrives s decimal same (pc ▸ back)⟩
  | branch test =>
    obtain ⟨first, leads, pc, s, decimal, zero, result, carry, same⟩ :=
      enters_other resident entered rfl rfl apart decoded (by simp)
    have status := (increment_status (Sweet16.increment cpu.memory r15)).trans
      (increment_status cpu.memory)
    rw [← s] at same
    obtain ⟨last, arrives⟩ := branch_arrives leads.installed pc (decimal.trans binary) zero
      (by rw [result, status]) (by rw [carry, resultCarry, resultCarry, status]) same fits.2.1
      (by
        rw [s, register_increment]
        exact shown (by simp [Op.places])) fits.2.2
    rw [s] at arrives
    exact ⟨last, arrives.after leads.executes s decimal (.refl _ _)⟩

end Fix

end Akiso.Sweet16
