import Akiso.Shared.MachineCode

set_option autoImplicit false

namespace Akiso.Mos6502

variable {image : Image} {memory other : Memory} {cpu next last : Cpu} {level : Byte} {pc : Word}
  {instruction : Instruction} {instructions rest : List Instruction} {hidden : Word → Prop}

structure Leads (image : Image) (level : Byte) (cpu last : Cpu) : Prop where
  advances : Advances level cpu last
  installed : image.Installed last.memory

theorem Leads.trans {middle : Cpu} (first : Leads image level cpu middle)
    (second : Leads image level middle last) : Leads image level cpu last :=
  ⟨first.advances.trans second.advances, second.installed⟩

theorem Leads.step (level : Byte) (instruction : Instruction)
    (installed : image.Installed cpu.memory)
    (code : image.Code cpu.pc (instruction :: rest))
    (binary : instruction.operation ∈ [.adc, .sbc] → cpu.p.decimal = false)
    (inside : instruction.operation = .rts → cpu.s ≠ level)
    (apart : ∀ write ∈ (cpu.past instruction).writes instruction, image write.1 = none) :
    Leads image level cpu (cpu.execute instruction) := by
  have here := installed.decode code
  refine ⟨.step ?_ ?_ .refl, installed.execute apart⟩
  · have sums : ¬ (cpu.p.decimal ∧
        (instruction.operation = .adc ∨ instruction.operation = .sbc)) := by
      rintro ⟨decimal, sum⟩
      rw [binary (by simpa using sum)] at decimal
      cases decimal
    simp [Cpu.step, here, sums]
  · rintro ⟨same, back⟩
    rw [here, Option.map_some, Option.some.injEq] at back
    exact inside back same

theorem Leads.execute (level : Byte) (instruction : Instruction)
    (installed : image.Installed cpu.memory)
    (code : image.Code cpu.pc (instruction :: rest))
    (simple : instruction.operation ∉ [.adc, .sbc, .rts])
    (apart : ∀ write ∈ (cpu.past instruction).writes instruction, image write.1 = none) :
    Leads image level cpu (cpu.execute instruction) := by
  simp only [List.mem_cons, List.not_mem_nil, or_false, not_or] at simple
  exact .step level instruction installed code (by simp [simple]) (by simp [simple]) apart

theorem Leads.block (level : Byte) (instructions : List Instruction)
    (installed : image.Installed cpu.memory)
    (code : image.Code cpu.pc instructions) (plain : instructions.all Instruction.plain = true)
    (apart : image.Apart instructions cpu) : Leads image level cpu (cpu.block instructions) := by
  induction instructions generalizing cpu with
  | nil => exact ⟨.refl, installed⟩
  | cons instruction rest ih =>
    simp only [List.all_cons, Bool.and_eq_true] at plain
    have simple : instruction.operation ∉ [.adc, .sbc, .rts] := by
      intro listed
      simp only [List.mem_cons, List.not_mem_nil, or_false] at listed
      rcases listed with same | same | same <;> simp [Instruction.plain, same] at plain
    have first := Leads.execute level instruction installed code simple apart.1
    exact first.trans (ih first.installed (pc_execute plain.1 ▸ code.2.2) plain.2 apart.2)

@[simp] theorem toNat_append_bytes (high low : Byte) :
    (high ++ low).toNat = 256 * high.toNat + low.toNat := by
  rw [BitVec.toNat_append, ← Nat.shiftLeft_add_eq_or_of_lt low.isLt, Nat.shiftLeft_eq]
  omega

theorem append_halves (word : Word) :
    (word >>> 8).setWidth 8 ++ word.setWidth 8 = word := by
  apply BitVec.eq_of_toNat_eq
  simp only [toNat_append_bytes, BitVec.toNat_setWidth, BitVec.toNat_ushiftRight,
    Nat.shiftRight_eq_div_pow]
  have := word.isLt
  omega

theorem low_of_append (high low : Byte) : (high ++ low).setWidth 8 = low := by
  apply BitVec.eq_of_toNat_eq
  simp only [BitVec.toNat_setWidth, toNat_append_bytes]
  have := low.isLt
  omega

theorem high_of_append (high low : Byte) : ((high ++ low) >>> 8).setWidth 8 = high := by
  apply BitVec.eq_of_toNat_eq
  simp only [BitVec.toNat_setWidth, BitVec.toNat_ushiftRight, toNat_append_bytes,
    Nat.shiftRight_eq_div_pow]
  have := low.isLt
  have := high.isLt
  omega

theorem append_add_one (high low : Byte) :
    (high ++ low) + 1#16 =
      if low + 1#8 = 0#8 then (high + 1#8) ++ 0#8 else high ++ (low + 1#8) := by
  apply BitVec.eq_of_toNat_eq
  have := low.isLt
  have := high.isLt
  split
  next carry =>
    have full : low.toNat = 255 := by bv_omega
    simp only [BitVec.toNat_add, toNat_append_bytes, BitVec.toNat_ofNat, full]
    omega
  next carry =>
    have room : low.toNat < 255 := by bv_omega
    simp only [BitVec.toNat_add, toNat_append_bytes, BitVec.toNat_ofNat]
    omega

theorem append_sub_one (high low : Byte) :
    (high ++ low) - 1#16 =
      if low = 0#8 then (high - 1#8) ++ (low - 1#8) else high ++ (low - 1#8) := by
  apply BitVec.eq_of_toNat_eq
  have := low.isLt
  have := high.isLt
  split
  next borrow =>
    subst borrow
    simp only [BitVec.toNat_sub, toNat_append_bytes, BitVec.toNat_ofNat]
    omega
  next borrow =>
    have positive : 0 < low.toNat := by bv_omega
    simp only [BitVec.toNat_sub, toNat_append_bytes, BitVec.toNat_ofNat]
    omega

theorem toNat_stackAddress (s : Byte) : (stackAddress s).toNat = 256 + s.toNat := by
  simp [stackAddress]

theorem stackAddress_inj {first second : Byte} (same : stackAddress first = stackAddress second) :
    first = second := by
  apply BitVec.eq_of_toNat_eq
  have := congrArg BitVec.toNat same
  simpa [toNat_stackAddress] using this

def Image.Clear (image : Image) : Prop :=
  ∀ address, address.toNat < 512 → image address = none

theorem Image.Clear.zeroPage (clear : image.Clear) (place : Byte) :
    image (place.setWidth 16) = none := by
  refine clear _ ?_
  have := place.isLt
  simp only [BitVec.toNat_setWidth]
  omega

theorem Image.Clear.stack (clear : image.Clear) (s : Byte) : image (stackAddress s) = none := by
  refine clear _ ?_
  have := s.isLt
  rw [toNat_stackAddress]
  omega

theorem Listing.image_none (listing : Listing) (outside : Word → Bool)
    (missed : listing.places.all (fun place => !outside place.1) = true) {address : Word}
    (here : outside address = true) : listing.image address = none := by
  have absent : listing.places.find? (fun place => place.1 = address) = none := by
    refine List.find?_eq_none.mpr fun place member => ?_
    have apart := List.all_eq_true.mp missed place member
    simp only [decide_eq_true_eq]
    rintro rfl
    simp [here] at apart
  simp [image, absent]

theorem Listing.clear (listing : Listing)
    (beyond : listing.places.all (fun place => decide (512 ≤ place.1.toNat)) = true) :
    listing.image.Clear := by
  intro address low
  refine listing.image_none (fun place => decide (place.toNat < 512)) ?_ (decide_eq_true low)
  refine List.all_eq_true.mpr fun place member => ?_
  have above := of_decide_eq_true (List.all_eq_true.mp beyond place member)
  simpa using above

theorem called_high (cpu : Cpu) (target : Word) :
    (cpu.execute ⟨.jsr, .absolute, target⟩).memory (stackAddress cpu.s) =
      ((cpu.pc + 3#16 - 1#16) >>> 8).setWidth 8 := by
  have apart : stackAddress cpu.s ≠ stackAddress (cpu.s - 1#8) := fun same => by
    have := stackAddress_inj same
    bv_omega
  simp [Function.update_of_ne apart]

theorem called_low (cpu : Cpu) (target : Word) :
    (cpu.execute ⟨.jsr, .absolute, target⟩).memory (stackAddress (cpu.s - 1#8)) =
      (cpu.pc + 3#16 - 1#16).setWidth 8 := by
  simp

theorem jsr_stack (cpu : Cpu) (target : Word) {other : Byte} (first : other ≠ cpu.s)
    (second : other ≠ cpu.s - 1#8) :
    (cpu.execute ⟨.jsr, .absolute, target⟩).memory (stackAddress other) =
      cpu.memory (stackAddress other) := by
  simp only [execute_jsr]
  rw [Function.update_of_ne fun same => second (stackAddress_inj same),
    Function.update_of_ne fun same => first (stackAddress_inj same)]

theorem Leads.call {target : Word}
    (body : Leads image level (cpu.execute ⟨.jsr, .absolute, target⟩) last)
    (jump : Leads image level cpu (cpu.execute ⟨.jsr, .absolute, target⟩))
    (back : image.Code last.pc [⟨.rts, .implied, 0#16⟩])
    (balanced : last.s = cpu.s - 2#8) (entered : cpu.s = level)
    (kept : ∀ s, s = cpu.s ∨ s = cpu.s - 1#8 → last.memory (stackAddress s) =
      (cpu.execute ⟨.jsr, .absolute, target⟩).memory (stackAddress s)) :
    Leads image level cpu { last with pc := cpu.pc + 3#16, s := cpu.s } := by
  have arrived : last.step = some (last.execute ⟨.rts, .implied, 0#16⟩) := by
    simp [Cpu.step, body.installed.decode back]
  have inside : ¬ last.returning level := by
    rintro ⟨same, -⟩
    rw [balanced, entered] at same
    bv_omega
  have returned : last.execute ⟨.rts, .implied, 0#16⟩ =
      { last with pc := cpu.pc + 3#16, s := cpu.s } := by
    have first : last.s + 2#8 = cpu.s := by rw [balanced]; bv_omega
    have second : last.s + 1#8 = cpu.s - 1#8 := by rw [balanced]; bv_omega
    have high := kept cpu.s (.inl rfl)
    have low := kept (cpu.s - 1#8) (.inr rfl)
    rw [called_high] at high
    rw [called_low] at low
    have back : cpu.pc + 3#16 - 1#16 + 1#16 = cpu.pc + 3#16 := by bv_omega
    simp only [execute_rts, first, second, high, low, append_halves, back]
  exact ⟨jump.advances.trans (body.advances.trans (returned ▸ .step arrived inside .refl)),
    body.installed⟩

def StackPage (address : Word) : Prop :=
  256 ≤ address.toNat ∧ address.toNat < 512

instance (address : Word) : Decidable (StackPage address) :=
  inferInstanceAs (Decidable (_ ∧ _))

theorem stackPage_stackAddress (s : Byte) : StackPage (stackAddress s) := by
  have := s.isLt
  rw [StackPage, toNat_stackAddress]
  omega

def Covers (hidden : Word → Prop) (s : Byte) (depth : Nat) : Prop :=
  ∀ pushed < depth, hidden (stackAddress (s - BitVec.ofNat 8 pushed))

theorem Covers.first {s : Byte} {depth : Nat} (covers : Covers hidden s (depth + 1)) :
    hidden (stackAddress s) := by
  simpa using covers 0 (by omega)

theorem Covers.below {s : Byte} {depth : Nat} (covers : Covers hidden s depth) {first more : Nat}
    (within : first + more ≤ depth) : Covers hidden (s - BitVec.ofNat 8 first) more := by
  intro pushed inside
  simpa [BitVec.ofNat_add, BitVec.sub_sub] using covers (first + pushed) (by omega)

theorem Covers.take {s : Byte} {depth more : Nat} (covers : Covers hidden s depth)
    (within : more ≤ depth) : Covers hidden s more :=
  fun pushed inside => covers pushed (by omega)

theorem covers_stackPage (s : Byte) (depth : Nat) : Covers StackPage s depth :=
  fun _ _ => stackPage_stackAddress _

theorem same_of_jsr (cpu : Cpu) (target : Word) (covers : Covers hidden cpu.s 2) :
    SameOutside hidden cpu.memory (cpu.execute ⟨.jsr, .absolute, target⟩).memory := by
  have second : hidden (stackAddress (cpu.s - 1#8)) := covers 1 (by omega)
  rw [execute_jsr]
  exact ((SameOutside.refl _ _).update_hidden covers.first _).update_hidden second _

/-- A part of a subroutine, with the stack as it was and this memory but for hidden places. -/
structure Reaches (image : Image) (hidden : Word → Prop) (cpu : Cpu) (pc : Word) (memory : Memory)
    (last : Cpu) : Prop where
  leads : Leads image cpu.s cpu last
  pc : last.pc = pc
  s : last.s = cpu.s
  x : last.x = cpu.x
  decimal : last.p.decimal = cpu.p.decimal
  same : SameOutside hidden memory last.memory

def Done (image : Image) (hidden : Word → Prop) (cpu : Cpu) (memory : Memory) : Prop :=
  ∃ last, Reaches image hidden cpu last.pc memory last ∧
    image.Code last.pc [⟨.rts, .implied, 0#16⟩]

theorem Done.after {middle : Cpu} {between after : Memory}
    (second : Done image hidden middle after)
    (first : Reaches image hidden cpu pc between middle)
    (same : SameOutside hidden memory after) : Done image hidden cpu memory := by
  obtain ⟨last, reaches, back⟩ := second
  have onward : Leads image cpu.s middle last := first.s ▸ reaches.leads
  exact ⟨last, ⟨first.leads.trans onward, rfl, reaches.s.trans first.s, reaches.x.trans first.x,
    reaches.decimal.trans first.decimal, same.trans reaches.same⟩, back⟩

theorem Leads.reaches (leads : Leads image cpu.s cpu last) (s : last.s = cpu.s)
    (x : last.x = cpu.x) (decimal : last.p.decimal = cpu.p.decimal) (hidden : Word → Prop) :
    Reaches image hidden cpu last.pc last.memory last :=
  ⟨leads, rfl, s, x, decimal, .refl _ _⟩

theorem Leads.done (leads : Leads image cpu.s cpu last) (s : last.s = cpu.s) (x : last.x = cpu.x)
    (decimal : last.p.decimal = cpu.p.decimal) (written : last.memory = memory)
    (back : image.Code last.pc [⟨.rts, .implied, 0#16⟩]) : Done image hidden cpu memory :=
  ⟨last, written ▸ leads.reaches s x decimal hidden, back⟩

theorem Advances.returns (advances : Advances level cpu last) (back : last.returning level)
    (stepped : last.step = some next) : ∃ fuel, cpu.runToReturn level fuel = some next := by
  induction advances with
  | refl => exact ⟨1, by simp [Cpu.runToReturn, stepped, back]⟩
  | step taken passed _ ih =>
    obtain ⟨fuel, ran⟩ := ih back stepped
    exact ⟨fuel + 1, by simp [Cpu.runToReturn, taken, passed, ran]⟩

theorem runToReturn_unique {fuel fuel' : Nat} (ran : cpu.runToReturn level fuel = some last)
    (again : cpu.runToReturn level fuel' = some next) : last = next := by
  induction fuel generalizing cpu fuel' with
  | zero => simp [Cpu.runToReturn] at ran
  | succ fuel ih =>
    cases fuel' with
    | zero => simp [Cpu.runToReturn] at again
    | succ fuel' =>
      cases stepped : cpu.step with
      | none => simp [Cpu.runToReturn, stepped] at ran
      | some middle =>
        by_cases back : cpu.returning level
        · simp only [Cpu.runToReturn, stepped, back, if_true, Option.bind_eq_bind,
            Option.bind_some, Option.some.injEq] at ran again
          exact ran.symm.trans again
        · simp only [Cpu.runToReturn, stepped, back, if_false, Option.bind_eq_bind,
            Option.bind_some] at ran again
          exact ih ran again

theorem Done.returns (done : Done image hidden cpu memory) :
    ∃ fuel final, cpu.runToReturn cpu.s fuel = some final ∧ final.s = cpu.s + 2#8 ∧
      SameOutside hidden memory final.memory := by
  obtain ⟨last, reaches, back⟩ := done
  have here := reaches.leads.installed.decode back
  have stepped : last.step = some (last.execute ⟨.rts, .implied, 0#16⟩) := by
    simp [Cpu.step, here]
  obtain ⟨fuel, ran⟩ := reaches.leads.advances.returns ⟨reaches.s, by simp [here]⟩ stepped
  exact ⟨fuel, _, ran, by simp [reaches.s], reaches.same⟩

end Akiso.Mos6502
