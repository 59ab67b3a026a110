import Akiso.Asm.Branches

set_option autoImplicit false

/-!
# The instruction set of SWEET16

What each instruction does to the memory, whose page zero holds the registers.
-/

namespace Akiso.Sweet16

open Mos6502

def r0 : Byte := 0x00

def r13 : Byte := 0x1A

/-- LDDAT and STDAT shift: the two instructions of that name were taken out. -/
inductive RegisterOp where
  | set
  | ld
  | st
  | indirect (handler : Handler)
  | lddat
  | stdat
  | add
  | sub
  | cpr
  | inr
  | dcr
  deriving DecidableEq, Repr

inductive Op where
  | onRegister (operation : RegisterOp) (n : BitVec 4)
  | branch (branch : Branch)
  | nul
  | rtn
  deriving DecidableEq, Repr

-- In the order of OPTBL; the first one has the opcode 1X.
def registerOps : List RegisterOp :=
  [.set, .ld, .st, .indirect .ldat, .indirect .stat, .lddat, .stdat, .indirect .pop,
    .indirect .stpat, .add, .sub, .indirect .popd, .cpr, .inr, .dcr]

-- In the order of BRTBL. BK stops the processor, and a zero leads into the table.
def otherOps : List (Option Op) :=
  [some .rtn, some (.branch .br), some (.branch .bnc), none, none, none, none,
    some (.branch .bnz), some (.branch .bm1), some (.branch .bnm1), none, none, none, some .nul,
    some .nul, some .nul]

def decodeOp (byte : Byte) : Option Op :=
  let number := byte.extractLsb' 0 4
  let operation := byte.extractLsb' 4 4
  if operation = 0#4 then otherOps[number.toNat]?.join
  else registerOps[operation.toNat - 1]?.map fun operation => .onRegister operation number

def index (n : BitVec 4) : Byte :=
  n.setWidth 8 <<< 1

def status (x : Byte) (carry : Bool) : Byte :=
  x + (BitVec.ofBool carry).setWidth 8

def subtract (memory : Memory) (d x : Byte) : Memory :=
  let first := register memory r0
  let second := register memory x
  Function.update (setRegister memory d (first - second)) r14h
    (status d (decide (second.toNat ≤ first.toNat)))

-- The memory is as it is when the routine is entered: R15 is at the opcode, R14H has the index.
def operate (memory : Memory) (x : Byte) : RegisterOp → Memory
  | .set =>
    let p := register memory r15
    setRegister (setRegister memory x (memory (p + 2#16) ++ memory (p + 1#16))) r15 (p + 2#16)
  | .ld => setRegister memory r0 (register memory x)
  | .st => setRegister memory x (register memory r0)
  | .indirect handler => perform memory x handler
  | .lddat => setRegister memory x (register memory x <<< 1)
  | .stdat => setRegister memory x (register memory x >>> 1)
  | .add =>
    let first := register memory r0
    let second := register memory x
    Function.update (setRegister memory r0 (first + second)) r14h
      (status r0 (decide (65536 ≤ first.toNat + second.toNat)))
  | .sub => subtract memory r0 x
  | .cpr => subtract memory r13 x
  | .inr => increment memory x
  | .dcr => decrement memory x

def marked (memory : Memory) (n : BitVec 4) : Memory :=
  Function.update memory r14h (index n)

def Op.effect (memory : Memory) : Op → Memory
  | .onRegister operation n => operate (marked memory n) (index n) operation
  | .branch test =>
    let memory := increment memory r15
    let counter := register memory r15
    setRegister memory r15 (displaced counter (memory counter) (test.condition memory))
  | .nul | .rtn => increment memory r15

def interpret (memory : Memory) : Option Memory :=
  let memory := increment memory r15
  match decodeOp (memory (register memory r15)) with
  | none | some .rtn => none
  | some op => some (op.effect memory)

def rounds : Nat → Memory → Option Memory
  | 0, memory => some memory
  | count + 1, memory => do rounds count (← interpret memory)

def Op.places (p : Word) : Op → List Word
  | .onRegister .set _ => [p, p + 1#16, p + 2#16]
  | .branch _ => [p, p + 1#16]
  | _ => [p]

-- What the interpreter owns is neither program nor data. SET R15 would move the constant while it
-- is read.
def Op.Fits (own : Word → Prop) (memory : Memory) (op : Op) : Prop :=
  (∀ address ∈ op.places (register memory r15), ¬ own address) ∧
    match op with
    | .onRegister .set n => n ≠ 15#4 ∧ register memory r15 + 1#16 ≠ high (index n)
    | .onRegister (.indirect handler) n =>
      ∀ address ∈ dereferenced (marked memory n) (index n) handler, ¬ own address
    | .branch test =>
      let memory := increment memory r15
      (memory r14h >>> 1).toNat ≤ 15 ∧ test.Sound memory (memory (register memory r15))
    | _ => True

def Fit (own : Word → Prop) (memory : Memory) : Prop :=
  ∀ op ∈ decodeOp (increment memory r15 (register (increment memory r15) r15)),
    op.Fits own (increment memory r15)

variable {memory other : Memory} {x : Byte} {n : BitVec 4} {hidden own : Word → Prop}

theorem index_small (n : BitVec 4) : (index n).toNat ≤ 30 := by
  have := n.isLt
  simp only [index, BitVec.toNat_shiftLeft, BitVec.toNat_setWidth, Nat.shiftLeft_eq]
  omega

theorem setRegister_apart (memory : Memory) (small : x.toNat ≤ 30) (value : Word) {address : Word}
    (beyond : 32 ≤ address.toNat) : setRegister memory x value address = memory address := by
  refine setRegister_of_ne _ _ ?_ ?_ <;> rintro rfl
  · rw [toNat_low] at beyond
    omega
  · rw [toNat_high small] at beyond
    omega

theorem update_apart (memory : Memory) (byte : Byte) {address : Word}
    (beyond : 32 ≤ address.toNat) : Function.update memory r14h byte address = memory address := by
  refine Function.update_of_ne ?_ _ _
  rintro rfl
  exact absurd beyond (by decide)

theorem operate_of_apart (memory : Memory) (small : x.toNat ≤ 30) (operation : RegisterOp)
    {address : Word} (beyond : 32 ≤ address.toNat)
    (apart : ∀ handler, operation = .indirect handler → address ∉ dereferenced memory x handler) :
    operate memory x operation address = memory address := by
  have fifteen : r15.toNat ≤ 30 := by decide
  have zero : r0.toNat ≤ 30 := by decide
  have thirteen : r13.toNat ≤ 30 := by decide
  cases operation with
  | indirect handler => exact perform_of_apart memory small handler beyond (apart handler rfl)
  | set =>
    simp only [operate, setRegister_apart _ fifteen _ beyond, setRegister_apart _ small _ beyond]
  | ld => exact setRegister_apart _ zero _ beyond
  | st | lddat | stdat | inr | dcr => exact setRegister_apart _ small _ beyond
  | add => simp only [operate, update_apart _ _ beyond, setRegister_apart _ zero _ beyond]
  | sub =>
    simp only [operate, subtract, update_apart _ _ beyond, setRegister_apart _ zero _ beyond]
  | cpr =>
    simp only [operate, subtract, update_apart _ _ beyond, setRegister_apart _ thirteen _ beyond]

theorem operate_congr (shows : Shows hidden) (small : x.toNat ≤ 30)
    (same : SameOutside hidden memory other) (operation : RegisterOp)
    (shown : ∀ handler, operation = .indirect handler →
      ∀ address ∈ dereferenced memory x handler, ¬ hidden address)
    (constant : operation = .set →
      ¬ hidden (register memory r15 + 1#16) ∧ ¬ hidden (register memory r15 + 2#16)) :
    SameOutside hidden (operate memory x operation) (operate other x operation) := by
  have counter : register other r15 = register memory r15 :=
    register_congr shows (by decide) same
  have first : register other r0 = register memory r0 := register_congr shows (by decide) same
  have second := register_congr shows small same
  cases operation with
  | set =>
    obtain ⟨lowShown, highShown⟩ := constant rfl
    simp only [operate, counter, same _ lowShown, same _ highShown]
    exact setRegister_congr (setRegister_congr same _) _
  | ld | st | lddat | stdat =>
    simp only [operate, first, second]
    exact setRegister_congr same _
  | indirect handler => exact perform_congr shows small same handler (shown handler rfl)
  | add | sub | cpr =>
    simp only [operate, subtract, first, second]
    exact (setRegister_congr same _).update _ _
  | inr => exact increment_congr shows small same
  | dcr => exact decrement_congr shows small same

theorem interpret_some {next : Memory} (interpreted : interpret memory = some next) :
    ∃ op, decodeOp (increment memory r15 (register (increment memory r15) r15)) = some op ∧
      op ≠ .rtn ∧ next = op.effect (increment memory r15) := by
  rw [interpret] at interpreted
  split at interpreted
  next => cases interpreted
  next => cases interpreted
  next op last decoded =>
    exact ⟨op, decoded, fun same => last (same ▸ rfl), (Option.some.inj interpreted).symm⟩

theorem mem_places (p : Word) (op : Op) : p ∈ op.places p := by
  cases op with
  | onRegister operation n => cases operation <;> simp [Op.places]
  | _ => simp [Op.places]

theorem dereferenced_congr (shows : Shows hidden) (small : x.toNat ≤ 30)
    (same : SameOutside hidden memory other) (handler : Handler) :
    dereferenced other x handler = dereferenced memory x handler := by
  have pointer := register_congr shows small same
  cases handler <;> simp only [dereferenced, pointer]

theorem increment_status (memory : Memory) : increment memory r15 r14h = memory r14h :=
  setRegister_of_ne memory _ (by decide) (by decide)

theorem register_increment (memory : Memory) (x : Byte) :
    register (increment memory x) x = register memory x + 1#16 :=
  register_setRegister memory x _

theorem resultIndex_small (few : (memory r14h >>> 1).toNat ≤ 15) :
    (resultIndex memory).toNat ≤ 30 := by
  rw [resultIndex, BitVec.toNat_shiftLeft, Nat.shiftLeft_eq]
  omega

theorem condition_congr (shows : Shows hidden) (same : SameOutside hidden memory other)
    (few : (memory r14h >>> 1).toNat ≤ 15) (branch : Branch) :
    branch.condition other ↔ branch.condition memory := by
  have status : other r14h = memory r14h := same _ (shows _ (by decide))
  have index : resultIndex other = resultIndex memory := by rw [resultIndex, resultIndex, status]
  have result := register_congr shows (resultIndex_small few) same
  cases branch <;> simp only [Branch.condition, resultCarry, status, index, result]

theorem tested_same (shows : Shows hidden) (same : SameOutside hidden memory other)
    (few : (memory r14h >>> 1).toNat ≤ 15) (shown : ¬ hidden cellFF) (branch : Branch) :
    branch.tested other ↔ branch.tested memory := by
  have small := resultIndex_small few
  have status : other r14h = memory r14h := same _ (shows _ (by decide))
  have index : resultIndex other = resultIndex memory := by rw [resultIndex, resultIndex, status]
  have result := register_congr shows small same
  have first := same _ (shows_low shows small)
  have second := same _ (shows_high shows small)
  cases branch <;>
    simp only [Branch.tested, resultCarry, commonBits, status, index, result, first, second,
      same _ shown]

theorem effect_of_owned {op : Op} (fits : op.Fits own memory) {address : Word}
    (beyond : 32 ≤ address.toNat) (owned : own address) :
    op.effect memory address = memory address := by
  have fifteen : r15.toNat ≤ 30 := by decide
  cases op with
  | onRegister operation n =>
    rw [Op.effect, operate_of_apart _ (index_small n) operation beyond, marked,
      update_apart _ _ beyond]
    rintro handler rfl listed
    exact fits.2 address listed owned
  | branch test =>
    rw [Op.effect, setRegister_apart _ fifteen _ beyond, increment,
      setRegister_apart _ fifteen _ beyond]
  | nul | rtn => exact setRegister_apart _ fifteen _ beyond

theorem marked_counter (memory : Memory) (n : BitVec 4) :
    register (marked memory n) r15 = register memory r15 := by
  have apart : high r15 ≠ r14h ∧ low r15 ≠ r14h := by decide
  simp [register, marked, apart]

theorem operation_congr (shows : Shows hidden) {operation : RegisterOp}
    (same : SameOutside hidden (marked memory n) other)
    (fits : (Op.onRegister operation n).Fits own memory)
    (within : ∀ address, hidden address → own address) :
    SameOutside hidden (operate (marked memory n) (index n) operation)
      (operate other (index n) operation) := by
  refine operate_congr shows (index_small n) same operation ?_ ?_
  · rintro handler rfl address listed covered
    exact fits.2 address listed (within address covered)
  · rintro rfl
    rw [marked_counter]
    exact ⟨fun covered => fits.1 _ (by simp [Op.places]) (within _ covered),
      fun covered => fits.1 _ (by simp [Op.places]) (within _ covered)⟩

theorem effect_congr (shows : Shows hidden) (same : SameOutside hidden memory other) {op : Op}
    (fits : op.Fits own memory) (within : ∀ address, hidden address → own address) :
    SameOutside hidden (op.effect memory) (op.effect other) := by
  have fifteen : r15.toNat ≤ 30 := by decide
  have up := increment_congr shows fifteen same
  cases op with
  | onRegister operation n => exact operation_congr shows (same.update _ _) fits within
  | branch test =>
    have counter := register_congr shows fifteen up
    have condition := condition_congr shows up fits.2.1 test
    have displacement := up (register (increment memory r15) r15) fun covered => by
      rw [register_increment] at covered
      exact fits.1 _ (by simp [Op.places]) (within _ covered)
    simp only [Op.effect, counter, displacement, condition]
    exact setRegister_congr up _
  | nul | rtn => exact up

theorem sound_congr (shows : Shows hidden) (same : SameOutside hidden memory other)
    (few : (memory r14h >>> 1).toNat ≤ 15) (shown : ¬ hidden cellFF) (branch : Branch)
    (displacement : Byte) : branch.Sound other displacement ↔ branch.Sound memory displacement := by
  have condition := condition_congr shows same few branch
  have tested := tested_same shows same few shown branch
  rw [← sound_iff branch other 0#16, ← sound_iff branch memory 0#16]
  simp only [condition, tested]

theorem fits_congr (shows : Shows hidden) (same : SameOutside hidden memory other)
    (within : ∀ address, hidden address → own address) (shown : ¬ hidden cellFF) {op : Op}
    (fits : op.Fits own memory) : op.Fits own other := by
  have fifteen : r15.toNat ≤ 30 := by decide
  have counter := register_congr shows fifteen same
  have up := increment_congr shows fifteen same
  refine ⟨counter ▸ fits.1, ?_⟩
  cases op with
  | onRegister operation n =>
    cases operation with
    | set => exact counter ▸ fits.2
    | indirect handler =>
      have marks : SameOutside hidden (marked memory n) (marked other n) := same.update _ _
      have places := dereferenced_congr shows (index_small n) marks handler
      exact fun address listed => fits.2 address (places ▸ listed)
    | _ => exact True.intro
  | branch test =>
    have status : increment other r15 r14h = increment memory r15 r14h :=
      up _ (shows _ (by decide))
    have next := register_congr shows fifteen up
    have displacement := up (register (increment memory r15) r15) fun covered => by
      rw [register_increment] at covered
      exact fits.1 _ (by simp [Op.places]) (within _ covered)
    refine ⟨status ▸ fits.2.1, ?_⟩
    rw [next, displacement]
    exact (sound_congr shows up fits.2.1 shown test _).mpr fits.2.2
  | nul | rtn => exact True.intro

theorem next_congr (shows : Shows hidden) (same : SameOutside hidden memory other)
    (within : ∀ address, hidden address → own address) {op : Op}
    (decoded : decodeOp (increment memory r15 (register (increment memory r15) r15)) = some op)
    (fit : Fit own memory) :
    decodeOp (increment other r15 (register (increment other r15) r15)) = some op := by
  have up := increment_congr shows (by decide : r15.toNat ≤ 30) same
  have counter := register_congr shows (by decide : r15.toNat ≤ 30) up
  rw [counter, up _ fun covered => (fit op decoded).1 _ (mem_places _ op) (within _ covered)]
  exact decoded

theorem fit_congr (shows : Shows hidden) (same : SameOutside hidden memory other)
    (within : ∀ address, hidden address → own address) (shown : ¬ hidden cellFF) {op : Op}
    (decoded : decodeOp (increment memory r15 (register (increment memory r15) r15)) = some op)
    (fit : Fit own memory) : Fit own other := by
  intro next here
  rw [next_congr shows same within decoded fit] at here
  cases here
  exact fits_congr shows (increment_congr shows (by decide : r15.toNat ≤ 30) same) within shown
    (fit op decoded)

theorem interpret_congr (shows : Shows hidden) (same : SameOutside hidden memory other)
    (within : ∀ address, hidden address → own address) (fit : Fit own memory) {next : Memory}
    (interpreted : interpret memory = some next) :
    ∃ again, interpret other = some again ∧ SameOutside hidden next again := by
  obtain ⟨op, decoded, last, rfl⟩ := interpret_some interpreted
  have up := increment_congr shows (by decide : r15.toNat ≤ 30) same
  refine ⟨_, ?_, effect_congr shows up (fit op decoded) within⟩
  rw [interpret]
  simp only [next_congr shows same within decoded fit]

theorem interpret_owned {next : Memory} (fit : Fit own memory)
    (interpreted : interpret memory = some next) {address : Word} (beyond : 32 ≤ address.toNat)
    (owned : own address) : next address = memory address := by
  obtain ⟨op, decoded, -, rfl⟩ := interpret_some interpreted
  rw [effect_of_owned (fit op decoded) beyond owned, increment,
    setRegister_apart _ (by decide) _ beyond]

end Akiso.Sweet16
