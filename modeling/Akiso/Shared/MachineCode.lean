import Akiso.Shared.Mos6502

set_option autoImplicit false

/-!
# Programs in the memory of a 6502

Blocks and subroutines of a program whose bytes stay in memory while it runs.
-/

namespace Akiso.Mos6502

abbrev Image := Word → Option Byte

abbrev Listing := List (Word × List Instruction)

def assemble : Word → List Instruction → List (Word × Byte)
  | _, [] => []
  | pc, instruction :: rest =>
    (instruction.bytes pc).mapIdx (fun index byte => (pc + BitVec.ofNat 16 index, byte)) ++
      assemble (pc + BitVec.ofNat 16 instruction.mode.length) rest

def Listing.places (listing : Listing) : List (Word × Byte) :=
  listing.flatMap fun part => assemble part.1 part.2

def Listing.image (listing : Listing) : Image := fun address =>
  (listing.places.find? fun place => place.1 = address).map Prod.snd

def Image.Installed (image : Image) (memory : Memory) : Prop :=
  ∀ address byte, image address = some byte → memory address = byte

def Image.load (image : Image) (memory : Memory) : Memory := fun address =>
  (image address).getD (memory address)

def Image.Code (image : Image) : Word → List Instruction → Prop
  | _, [] => True
  | pc, instruction :: rest =>
    (∀ index < instruction.mode.length, (image (pc + BitVec.ofNat 16 index)).isSome) ∧
      decode (image.load fun _ => 0#8) pc = some instruction ∧
      image.Code (pc + BitVec.ofNat 16 instruction.mode.length) rest

instance decidableCode (image : Image) :
    ∀ pc instructions, Decidable (image.Code pc instructions)
  | _, [] => isTrue True.intro
  | pc, instruction :: rest =>
    have := decidableCode image (pc + BitVec.ofNat 16 instruction.mode.length) rest
    inferInstanceAs (Decidable (_ ∧ _ ∧ _))

def codeLength : List Instruction → Nat
  | [] => 0
  | instruction :: rest => instruction.mode.length + codeLength rest

def SameOutside (hidden : Word → Prop) (memory other : Memory) : Prop :=
  ∀ address, ¬ hidden address → other address = memory address

-- A block leaves pc at its end, and its arithmetic does not depend on the decimal flag.
def Instruction.plain (instruction : Instruction) : Bool :=
  match instruction.operation with
  | .adc | .sbc | .bcc | .bcs | .beq | .bmi | .bne | .bpl | .jmp | .jsr | .rts => false
  | _ => true

def Cpu.block (cpu : Cpu) (instructions : List Instruction) : Cpu :=
  instructions.foldl Cpu.execute cpu

def Image.Apart (image : Image) : List Instruction → Cpu → Prop
  | [], _ => True
  | instruction :: rest, cpu =>
    (∀ write ∈ (cpu.past instruction).writes instruction, image write.1 = none) ∧
      image.Apart rest (cpu.execute instruction)

/-- Steps none of which is the RTS at this level of the stack. -/
inductive Advances (level : Byte) : Cpu → Cpu → Prop where
  | refl {cpu : Cpu} : Advances level cpu cpu
  | step {cpu next last : Cpu} : cpu.step = some next → ¬ cpu.returning level →
      Advances level next last → Advances level cpu last

variable {image : Image} {memory other : Memory} {cpu next last : Cpu} {level : Byte} {pc : Word}
  {instruction : Instruction} {instructions rest : List Instruction} {hidden : Word → Prop}

theorem Image.installed_load (image : Image) (memory : Memory) :
    image.Installed (image.load memory) := by
  intro address byte here
  simp [load, here]

theorem Image.load_of_none {address : Word} (free : image address = none) (memory : Memory) :
    image.load memory address = memory address := by
  simp [load, free]

theorem Image.Code.append {second : List Instruction} {middle : Word}
    (code : image.Code pc instructions) (onward : image.Code middle second)
    (arrives : pc + BitVec.ofNat 16 (codeLength instructions) = middle) :
    image.Code pc (instructions ++ second) := by
  induction instructions generalizing pc with
  | nil => simpa [← arrives, codeLength] using onward
  | cons instruction rest ih =>
    refine ⟨code.1, code.2.1, ih code.2.2 ?_⟩
    rw [← arrives, codeLength, BitVec.ofNat_add, BitVec.add_assoc]

theorem Image.Code.take (code : image.Code pc instructions) (count : Nat) :
    image.Code pc (instructions.take count) := by
  induction instructions generalizing pc count with
  | nil => simp [Code]
  | cons instruction rest ih =>
    cases count with
    | zero => exact True.intro
    | succ count => exact ⟨code.1, code.2.1, ih code.2.2 count⟩

theorem Image.Code.drop (code : image.Code pc instructions) (count : Nat) :
    image.Code (pc + BitVec.ofNat 16 (codeLength (instructions.take count)))
      (instructions.drop count) := by
  induction instructions generalizing pc count with
  | nil => simp [Code]
  | cons instruction rest ih =>
    cases count with
    | zero => simpa [codeLength] using code
    | succ count =>
      simpa [codeLength, BitVec.ofNat_add, BitVec.add_assoc] using ih code.2.2 count

theorem Listing.code {listing : Listing} {part : Word × List Instruction}
    (assembled : listing.all (fun part => decide (listing.image.Code part.1 part.2)) = true)
    (listed : part ∈ listing) : listing.image.Code part.1 part.2 :=
  of_decide_eq_true (List.all_eq_true.mp assembled part listed)

theorem SameOutside.refl (hidden : Word → Prop) (memory : Memory) :
    SameOutside hidden memory memory :=
  fun _ _ => rfl

theorem SameOutside.symm (same : SameOutside hidden memory other) :
    SameOutside hidden other memory :=
  fun address shown => (same address shown).symm

theorem SameOutside.trans {third : Memory} (same : SameOutside hidden memory other)
    (onward : SameOutside hidden other third) : SameOutside hidden memory third :=
  fun address shown => (onward address shown).trans (same address shown)

theorem SameOutside.mono {wider : Word → Prop} (same : SameOutside hidden memory other)
    (within : ∀ address, hidden address → wider address) : SameOutside wider memory other :=
  fun address shown => same address fun covered => shown (within address covered)

theorem SameOutside.update (same : SameOutside hidden memory other) (address : Word) (byte : Byte) :
    SameOutside hidden (Function.update memory address byte)
      (Function.update other address byte) := by
  intro place shown
  by_cases here : place = address
  · simp [here]
  · simpa [Function.update_of_ne here] using same place shown

theorem SameOutside.update_hidden (same : SameOutside hidden memory other) {address : Word}
    (covered : hidden address) (byte : Byte) :
    SameOutside hidden memory (Function.update other address byte) := by
  intro place shown
  have apart : place ≠ address := by
    rintro rfl
    exact shown covered
  rw [Function.update_of_ne apart]
  exact same place shown

theorem operandAt_congr (mode : Mode)
    (same : ∀ index < mode.length,
      other (pc + BitVec.ofNat 16 index) = memory (pc + BitVec.ofNat 16 index)) :
    operandAt other pc mode = operandAt memory pc mode := by
  cases mode
  case implied | accumulator => rfl
  case immediate | zeroPage | zeroPageX | indirectX | indirectY | relative =>
    have second : other (pc + 1#16) = memory (pc + 1#16) := same 1 (by simp)
    simp only [operandAt, second]
  case absolute | absoluteX | absoluteY | indirect =>
    have second : other (pc + 1#16) = memory (pc + 1#16) := same 1 (by simp)
    have third : other (pc + 2#16) = memory (pc + 2#16) := same 2 (by simp)
    simp only [operandAt, second, third]

theorem decode_congr (found : decode memory pc = some instruction)
    (same : ∀ index < instruction.mode.length,
      other (pc + BitVec.ofNat 16 index) = memory (pc + BitVec.ofNat 16 index)) :
    decode other pc = some instruction := by
  obtain ⟨⟨opcode, operation, mode⟩, row, rfl⟩ := Option.map_eq_some_iff.mp found
  have long : 0 < mode.length := by cases mode <;> simp
  have first : other pc = memory pc := by simpa using same 0 long
  simp [decode, first, row, operandAt_congr mode same]

theorem Image.Code.mono {wider : Image} (code : image.Code pc instructions)
    (kept : ∀ address byte, image address = some byte → wider address = some byte) :
    wider.Code pc instructions := by
  induction instructions generalizing pc with
  | nil => exact True.intro
  | cons instruction rest ih =>
    refine ⟨fun index inside => ?_, ?_, ih code.2.2⟩
    · obtain ⟨byte, here⟩ := Option.isSome_iff_exists.mp (code.1 index inside)
      rw [kept _ byte here, Option.isSome_some]
    · refine decode_congr code.2.1 fun index inside => ?_
      obtain ⟨byte, here⟩ := Option.isSome_iff_exists.mp (code.1 index inside)
      rw [load, load, here, kept _ byte here]

theorem Image.Installed.decode (installed : image.Installed memory)
    (code : image.Code pc (instruction :: rest)) : decode memory pc = some instruction := by
  refine decode_congr code.2.1 fun index inside => ?_
  obtain ⟨byte, here⟩ := Option.isSome_iff_exists.mp (code.1 index inside)
  rw [installed _ byte here, load, here, Option.getD_some]

theorem Image.Installed.congr (installed : image.Installed memory)
    (same : ∀ address, (image address).isSome → other address = memory address) :
    image.Installed other := by
  intro address byte here
  rw [same address (by simp [here])]
  exact installed address byte here

theorem store_of_not_mem (memory : Memory) (writes : List (Word × Byte)) {address : Word}
    (missed : ∀ write ∈ writes, write.1 ≠ address) :
    store memory writes address = memory address := by
  induction writes generalizing memory with
  | nil => rfl
  | cons write rest ih =>
    have later : store (Function.update memory write.1 write.2) rest address =
        Function.update memory write.1 write.2 address :=
      ih _ fun other member => missed other (by simp [member])
    exact later.trans (Function.update_of_ne (Ne.symm (missed write (by simp))) _ _)

theorem Image.Installed.execute (installed : image.Installed cpu.memory)
    (apart : ∀ write ∈ (cpu.past instruction).writes instruction, image write.1 = none) :
    image.Installed (cpu.execute instruction).memory := by
  refine installed.congr fun address here => store_of_not_mem _ _ ?_
  rintro write member rfl
  simp [apart write member] at here

theorem pc_execute (plain : instruction.plain = true) :
    (cpu.execute instruction).pc = cpu.pc + BitVec.ofNat 16 instruction.mode.length := by
  cases operation : instruction.operation <;>
    simp_all [Instruction.plain, Cpu.execute, Cpu.past, Cpu.registers, Cpu.shift]

theorem Advances.trans {middle : Cpu} (first : Advances level cpu middle)
    (second : Advances level middle last) : Advances level cpu last := by
  induction first with
  | refl => exact second
  | step taken passed _ ih => exact .step taken passed (ih second)

section Execute

variable (cpu : Cpu) (mode : Mode) (operand : Word)

@[simp] theorem result_zero (p : Flags) (value : Byte) : (p.result value).zero = (value == 0) :=
  rfl

@[simp] theorem result_negative (p : Flags) (value : Byte) :
    (p.result value).negative = value.msb :=
  rfl

@[simp] theorem result_carry (p : Flags) (value : Byte) : (p.result value).carry = p.carry :=
  rfl

@[simp] theorem result_decimal (p : Flags) (value : Byte) :
    (p.result value).decimal = p.decimal :=
  rfl

@[simp] theorem ofByte_toByte (p : Flags) : Flags.ofByte p.toByte = p := by
  obtain ⟨negative, overflow, decimal, interrupt, zero, carry⟩ := p
  cases negative <;> cases overflow <;> cases decimal <;> cases interrupt <;> cases zero <;>
    cases carry <;> rfl

@[simp] theorem value_immediate (operation : Operation) :
    cpu.value ⟨operation, .immediate, operand⟩ = operand.setWidth 8 :=
  rfl

@[simp] theorem value_zeroPage (operation : Operation) :
    cpu.value ⟨operation, .zeroPage, operand⟩ = cpu.memory operand :=
  rfl

@[simp] theorem address_zeroPage (operation : Operation) :
    cpu.address ⟨operation, .zeroPage, operand⟩ = operand :=
  rfl

@[simp] theorem value_zeroPageX (operation : Operation) :
    cpu.value ⟨operation, .zeroPageX, operand⟩ =
      cpu.memory (cpu.address ⟨operation, .zeroPageX, operand⟩) :=
  rfl

@[simp] theorem value_indirectX (operation : Operation) :
    cpu.value ⟨operation, .indirectX, operand⟩ =
      cpu.memory (cpu.address ⟨operation, .indirectX, operand⟩) :=
  rfl

@[simp] theorem value_indirectY (operation : Operation) :
    cpu.value ⟨operation, .indirectY, operand⟩ =
      cpu.memory (cpu.address ⟨operation, .indirectY, operand⟩) :=
  rfl

@[simp] theorem block_nil : cpu.block [] = cpu :=
  rfl

@[simp] theorem block_cons :
    cpu.block (instruction :: rest) = (cpu.execute instruction).block rest :=
  rfl

@[simp] theorem execute_lda : cpu.execute ⟨.lda, mode, operand⟩ =
    { cpu with
      a := cpu.value ⟨.lda, mode, operand⟩
      p := cpu.p.result (cpu.value ⟨.lda, mode, operand⟩)
      pc := cpu.pc + BitVec.ofNat 16 mode.length } :=
  rfl

@[simp] theorem execute_ldy : cpu.execute ⟨.ldy, mode, operand⟩ =
    { cpu with
      y := cpu.value ⟨.ldy, mode, operand⟩
      p := cpu.p.result (cpu.value ⟨.ldy, mode, operand⟩)
      pc := cpu.pc + BitVec.ofNat 16 mode.length } :=
  rfl

@[simp] theorem execute_sta : cpu.execute ⟨.sta, mode, operand⟩ =
    { cpu with
      memory := Function.update cpu.memory (cpu.address ⟨.sta, mode, operand⟩) cpu.a
      pc := cpu.pc + BitVec.ofNat 16 mode.length } :=
  rfl

@[simp] theorem execute_sty : cpu.execute ⟨.sty, mode, operand⟩ =
    { cpu with
      memory := Function.update cpu.memory (cpu.address ⟨.sty, mode, operand⟩) cpu.y
      pc := cpu.pc + BitVec.ofNat 16 mode.length } :=
  rfl

@[simp] theorem execute_inc : cpu.execute ⟨.inc, mode, operand⟩ =
    { cpu with
      memory := Function.update cpu.memory (cpu.address ⟨.inc, mode, operand⟩)
        (cpu.value ⟨.inc, mode, operand⟩ + 1#8)
      p := cpu.p.result (cpu.value ⟨.inc, mode, operand⟩ + 1#8)
      pc := cpu.pc + BitVec.ofNat 16 mode.length } :=
  rfl

@[simp] theorem execute_dec : cpu.execute ⟨.dec, mode, operand⟩ =
    { cpu with
      memory := Function.update cpu.memory (cpu.address ⟨.dec, mode, operand⟩)
        (cpu.value ⟨.dec, mode, operand⟩ - 1#8)
      p := cpu.p.result (cpu.value ⟨.dec, mode, operand⟩ - 1#8)
      pc := cpu.pc + BitVec.ofNat 16 mode.length } :=
  rfl

@[simp] theorem execute_tay : cpu.execute ⟨.tay, .implied, operand⟩ =
    { cpu with y := cpu.a, p := cpu.p.result cpu.a, pc := cpu.pc + 1#16 } :=
  rfl

@[simp] theorem execute_tya : cpu.execute ⟨.tya, .implied, operand⟩ =
    { cpu with a := cpu.y, p := cpu.p.result cpu.y, pc := cpu.pc + 1#16 } :=
  rfl

@[simp] theorem execute_pha : cpu.execute ⟨.pha, .implied, operand⟩ =
    { cpu with
      memory := Function.update cpu.memory (stackAddress cpu.s) cpu.a
      s := cpu.s - 1#8
      pc := cpu.pc + 1#16 } :=
  rfl

@[simp] theorem execute_php : cpu.execute ⟨.php, .implied, operand⟩ =
    { cpu with
      memory := Function.update cpu.memory (stackAddress cpu.s) cpu.p.toByte
      s := cpu.s - 1#8
      pc := cpu.pc + 1#16 } :=
  rfl

@[simp] theorem execute_pla : cpu.execute ⟨.pla, .implied, operand⟩ =
    { cpu with
      a := cpu.memory (stackAddress (cpu.s + 1#8))
      p := cpu.p.result (cpu.memory (stackAddress (cpu.s + 1#8)))
      s := cpu.s + 1#8
      pc := cpu.pc + 1#16 } :=
  rfl

@[simp] theorem execute_plp : cpu.execute ⟨.plp, .implied, operand⟩ =
    { cpu with
      p := Flags.ofByte (cpu.memory (stackAddress (cpu.s + 1#8)))
      s := cpu.s + 1#8
      pc := cpu.pc + 1#16 } :=
  rfl

@[simp] theorem execute_jmp : cpu.execute ⟨.jmp, .absolute, operand⟩ = { cpu with pc := operand } :=
  rfl

@[simp] theorem execute_jsr : cpu.execute ⟨.jsr, .absolute, operand⟩ =
    { cpu with
      memory := Function.update
        (Function.update cpu.memory (stackAddress cpu.s)
          (((cpu.pc + 3#16 - 1#16) >>> 8).setWidth 8))
        (stackAddress (cpu.s - 1#8)) ((cpu.pc + 3#16 - 1#16).setWidth 8)
      s := cpu.s - 2#8
      pc := operand } :=
  rfl

@[simp] theorem execute_rts : cpu.execute ⟨.rts, .implied, operand⟩ =
    { cpu with
      pc := (cpu.memory (stackAddress (cpu.s + 2#8)) ++
        cpu.memory (stackAddress (cpu.s + 1#8))) + 1#16
      s := cpu.s + 2#8 } :=
  rfl

@[simp] theorem execute_bne : cpu.execute ⟨.bne, .relative, operand⟩ =
    { cpu with pc := if cpu.p.zero then cpu.pc + 2#16 else operand } := by
  cases zero : cpu.p.zero <;>
    simp [Cpu.execute, Cpu.past, Cpu.registers, Cpu.writes, Cpu.branch, store, zero]

@[simp] theorem execute_beq : cpu.execute ⟨.beq, .relative, operand⟩ =
    { cpu with pc := if cpu.p.zero then operand else cpu.pc + 2#16 } := by
  cases zero : cpu.p.zero <;>
    simp [Cpu.execute, Cpu.past, Cpu.registers, Cpu.writes, Cpu.branch, store, zero]

@[simp] theorem execute_bcs : cpu.execute ⟨.bcs, .relative, operand⟩ =
    { cpu with pc := if cpu.p.carry then operand else cpu.pc + 2#16 } := by
  cases carry : cpu.p.carry <;>
    simp [Cpu.execute, Cpu.past, Cpu.registers, Cpu.writes, Cpu.branch, store, carry]

@[simp] theorem execute_bpl : cpu.execute ⟨.bpl, .relative, operand⟩ =
    { cpu with pc := if cpu.p.negative then cpu.pc + 2#16 else operand } := by
  cases negative : cpu.p.negative <;>
    simp [Cpu.execute, Cpu.past, Cpu.registers, Cpu.writes, Cpu.branch, store, negative]

@[simp] theorem execute_and : cpu.execute ⟨.and, mode, operand⟩ =
    { cpu with
      a := cpu.a &&& cpu.value ⟨.and, mode, operand⟩
      p := cpu.p.result (cpu.a &&& cpu.value ⟨.and, mode, operand⟩)
      pc := cpu.pc + BitVec.ofNat 16 mode.length } :=
  rfl

@[simp] theorem execute_ora : cpu.execute ⟨.ora, mode, operand⟩ =
    { cpu with
      a := cpu.a ||| cpu.value ⟨.ora, mode, operand⟩
      p := cpu.p.result (cpu.a ||| cpu.value ⟨.ora, mode, operand⟩)
      pc := cpu.pc + BitVec.ofNat 16 mode.length } :=
  rfl

@[simp] theorem execute_eor : cpu.execute ⟨.eor, mode, operand⟩ =
    { cpu with
      a := cpu.a ^^^ cpu.value ⟨.eor, mode, operand⟩
      p := cpu.p.result (cpu.a ^^^ cpu.value ⟨.eor, mode, operand⟩)
      pc := cpu.pc + BitVec.ofNat 16 mode.length } :=
  rfl

@[simp] theorem execute_adc : cpu.execute ⟨.adc, mode, operand⟩ =
    { cpu.add (cpu.value ⟨.adc, mode, operand⟩) with
      pc := cpu.pc + BitVec.ofNat 16 mode.length } :=
  rfl

@[simp] theorem execute_asl : cpu.execute ⟨.asl, .accumulator, operand⟩ =
    { cpu with
      a := cpu.a <<< 1
      p := { cpu.p.result (cpu.a <<< 1) with carry := cpu.a.msb }
      pc := cpu.pc + 1#16 } :=
  rfl

@[simp] theorem execute_lsr : cpu.execute ⟨.lsr, .accumulator, operand⟩ =
    { cpu with
      a := cpu.a >>> 1
      p := { cpu.p.result (cpu.a >>> 1) with carry := cpu.a.getLsbD 0 }
      pc := cpu.pc + 1#16 } :=
  rfl

@[simp] theorem execute_tax : cpu.execute ⟨.tax, .implied, operand⟩ =
    { cpu with x := cpu.a, p := cpu.p.result cpu.a, pc := cpu.pc + 1#16 } :=
  rfl

@[simp] theorem execute_dey : cpu.execute ⟨.dey, .implied, operand⟩ =
    { cpu with y := cpu.y - 1#8, p := cpu.p.result (cpu.y - 1#8), pc := cpu.pc + 1#16 } :=
  rfl

@[simp] theorem execute_clc : cpu.execute ⟨.clc, .implied, operand⟩ =
    { cpu with p := { cpu.p with carry := false }, pc := cpu.pc + 1#16 } :=
  rfl

@[simp] theorem execute_sec : cpu.execute ⟨.sec, .implied, operand⟩ =
    { cpu with p := { cpu.p with carry := true }, pc := cpu.pc + 1#16 } :=
  rfl

@[simp] theorem execute_cld : cpu.execute ⟨.cld, .implied, operand⟩ =
    { cpu with p := { cpu.p with decimal := false }, pc := cpu.pc + 1#16 } :=
  rfl

@[simp] theorem execute_ldx : cpu.execute ⟨.ldx, mode, operand⟩ =
    { cpu with
      x := cpu.value ⟨.ldx, mode, operand⟩
      p := cpu.p.result (cpu.value ⟨.ldx, mode, operand⟩)
      pc := cpu.pc + BitVec.ofNat 16 mode.length } :=
  rfl

@[simp] theorem execute_stx : cpu.execute ⟨.stx, mode, operand⟩ =
    { cpu with
      memory := Function.update cpu.memory (cpu.address ⟨.stx, mode, operand⟩) cpu.x
      pc := cpu.pc + BitVec.ofNat 16 mode.length } :=
  rfl

@[simp] theorem execute_sbc : cpu.execute ⟨.sbc, mode, operand⟩ =
    { cpu.add (~~~cpu.value ⟨.sbc, mode, operand⟩) with
      pc := cpu.pc + BitVec.ofNat 16 mode.length } :=
  rfl

@[simp] theorem execute_jmp_indirect : cpu.execute ⟨.jmp, .indirect, operand⟩ =
    { cpu with pc := cpu.address ⟨.jmp, .indirect, operand⟩ } :=
  rfl

@[simp] theorem execute_bcc : cpu.execute ⟨.bcc, .relative, operand⟩ =
    { cpu with pc := if cpu.p.carry then cpu.pc + 2#16 else operand } := by
  cases carry : cpu.p.carry <;>
    simp [Cpu.execute, Cpu.past, Cpu.registers, Cpu.writes, Cpu.branch, store, carry]

@[simp] theorem execute_asl_zeroPageX : cpu.execute ⟨.asl, .zeroPageX, operand⟩ =
    { cpu with
      memory := Function.update cpu.memory (cpu.address ⟨.asl, .zeroPageX, operand⟩)
        (cpu.value ⟨.asl, .zeroPageX, operand⟩ <<< 1)
      p := { cpu.p.result (cpu.value ⟨.asl, .zeroPageX, operand⟩ <<< 1) with
             carry := (cpu.value ⟨.asl, .zeroPageX, operand⟩).msb }
      pc := cpu.pc + 2#16 } :=
  rfl

@[simp] theorem execute_rol : cpu.execute ⟨.rol, .zeroPageX, operand⟩ =
    { cpu with
      memory := Function.update cpu.memory (cpu.address ⟨.rol, .zeroPageX, operand⟩)
        (cpu.value ⟨.rol, .zeroPageX, operand⟩ <<< 1 ||| (BitVec.ofBool cpu.p.carry).setWidth 8)
      p := { cpu.p.result (cpu.value ⟨.rol, .zeroPageX, operand⟩ <<< 1 |||
               (BitVec.ofBool cpu.p.carry).setWidth 8) with
             carry := (cpu.value ⟨.rol, .zeroPageX, operand⟩).msb }
      pc := cpu.pc + 2#16 } :=
  rfl

@[simp] theorem execute_lsr_zeroPageX : cpu.execute ⟨.lsr, .zeroPageX, operand⟩ =
    { cpu with
      memory := Function.update cpu.memory (cpu.address ⟨.lsr, .zeroPageX, operand⟩)
        (cpu.value ⟨.lsr, .zeroPageX, operand⟩ >>> 1)
      p := { cpu.p.result (cpu.value ⟨.lsr, .zeroPageX, operand⟩ >>> 1) with
             carry := (cpu.value ⟨.lsr, .zeroPageX, operand⟩).getLsbD 0 }
      pc := cpu.pc + 2#16 } :=
  rfl

@[simp] theorem execute_ror : cpu.execute ⟨.ror, .zeroPageX, operand⟩ =
    { cpu with
      memory := Function.update cpu.memory (cpu.address ⟨.ror, .zeroPageX, operand⟩)
        (cpu.value ⟨.ror, .zeroPageX, operand⟩ >>> 1 |||
          (BitVec.ofBool cpu.p.carry).setWidth 8 <<< 7)
      p := { cpu.p.result (cpu.value ⟨.ror, .zeroPageX, operand⟩ >>> 1 |||
               (BitVec.ofBool cpu.p.carry).setWidth 8 <<< 7) with
             carry := (cpu.value ⟨.ror, .zeroPageX, operand⟩).getLsbD 0 }
      pc := cpu.pc + 2#16 } :=
  rfl

end Execute

end Akiso.Mos6502
