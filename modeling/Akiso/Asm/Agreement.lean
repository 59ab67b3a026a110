import Akiso.Asm.FixRuns
import Akiso.Asm.OriginalRuns

set_option autoImplicit false

namespace Akiso.Sweet16

open Mos6502

variable {cpu : Cpu}

def Original.start (handler : Handler) (cpu : Cpu) : Cpu :=
  { cpu with pc := entry handler, memory := image.load cpu.memory }

def Fix.start (handler : Handler) (cpu : Cpu) : Cpu :=
  { cpu with pc := entry handler, memory := image.load cpu.memory }

def HandlerCode (address : Word) : Prop :=
  (Original.image address).isSome ∨ (Fix.image address).isSome

instance (address : Word) : Decidable (HandlerCode address) :=
  inferInstanceAs (Decidable (_ ∨ _))

theorem Original.performs (handler : Handler) (installed : image.Installed cpu.memory)
    (entered : cpu.pc = entry handler) (small : cpu.x.toNat ≤ 30)
    (apart : ∀ address ∈ dereferenced cpu.memory cpu.x handler,
      ¬ StackPage address ∧ image address = none) :
    Done image StackPage cpu (perform cpu.memory cpu.x handler) := by
  cases handler with
  | stat => exact stat_done installed entered (apart _ (by simp [dereferenced])).2
  | ldat => exact ldat_done installed entered
  | pop => exact pop_done installed entered small (apart _ (by simp [dereferenced])).1
  | popd =>
    exact popd_done installed entered small (apart _ (by simp [dereferenced])).1
      (apart _ (by simp [dereferenced])).1
  | stpat => exact stpat_done installed entered small (apart _ (by simp [dereferenced])).2

theorem Fix.performs (handler : Handler) (installed : image.Installed cpu.memory)
    (entered : cpu.pc = entry handler) (small : cpu.x.toNat ≤ 30)
    (apart : ∀ address ∈ dereferenced cpu.memory cpu.x handler,
      ¬ Scratch address ∧ image address = none) :
    Done image Scratch cpu (perform cpu.memory cpu.x handler) :=
  performs_hidden handler installed (workspace_scratch cpu.s) entered small apart

theorem toNat_index {r : Nat} (within : r ≤ 15) (index : cpu.x = BitVec.ofNat 8 (2 * r)) :
    cpu.x.toNat ≤ 30 := by
  rw [index, BitVec.toNat_ofNat]
  omega

theorem handlerCode_beyond {address : Word} (code : HandlerCode address) :
    512 ≤ address.toNat := by
  by_contra low
  have original := Original.clear address (by omega)
  have fix := Fix.clear address (by omega)
  simp [HandlerCode, original, fix] at code

-- Where the memories of the two programs may differ.
def Concealed (address : Word) : Prop :=
  Scratch address ∨ HandlerCode address

theorem shows_concealed : Shows Concealed := by
  rintro address register (scratch | code)
  · exact shows_scratch address register scratch
  · have := handlerCode_beyond code
    omega

theorem not_scratch_of_code {address : Word} (code : HandlerCode address) : ¬ Scratch address := by
  have beyond := handlerCode_beyond code
  rintro (rfl | rfl | page)
  · exact absurd beyond (by decide)
  · exact absurd beyond (by decide)
  · exact absurd page.2 (by omega)

section Start

variable {image : Image} {hidden : Word → Prop} {handler : Handler}
  (small : cpu.x.toNat ≤ 30) (within : ∀ address, (image address).isSome → HandlerCode address)
  (apart : ∀ address ∈ dereferenced cpu.memory cpu.x handler, ¬ Concealed address)

include within in
theorem load_same : SameOutside Concealed cpu.memory (image.load cpu.memory) := by
  intro address shown
  refine image.load_of_none ?_ cpu.memory
  by_contra present
  exact shown (.inr (within address (Option.isSome_iff_ne_none.mpr present)))

include small within in
theorem dereferenced_load (handler : Handler) :
    dereferenced (image.load cpu.memory) cpu.x handler = dereferenced cpu.memory cpu.x handler := by
  cases handler <;> simp [dereferenced, register_congr shows_concealed small (load_same within)]

include small within apart in
theorem dereferenced_shown {address : Word}
    (listed : address ∈ dereferenced (image.load cpu.memory) cpu.x handler) :
    ¬ Scratch address ∧ image address = none := by
  rw [dereferenced_load small within] at listed
  obtain ⟨shown, free⟩ := not_or.mp (apart address listed)
  refine ⟨shown, ?_⟩
  by_contra present
  exact free (within address (Option.isSome_iff_ne_none.mpr present))

include small within apart in
theorem start_returns (start : Cpu) (loaded : start.memory = image.load cpu.memory)
    (level : start.s = cpu.s) (covered : ∀ address, hidden address → Scratch address)
    (done : Done image hidden start (perform start.memory cpu.x handler)) :
    ∃ fuel final, start.runToReturn cpu.s fuel = some final ∧ final.s = cpu.s + 2#8 ∧
      SameOutside Concealed (perform cpu.memory cpu.x handler) final.memory ∧
      ∀ address, HandlerCode address → final.memory address = start.memory address := by
  obtain ⟨fuel, final, ran, s, same⟩ := done.returns
  refine ⟨fuel, final, level ▸ ran, level ▸ s, ?_, fun address code => ?_⟩
  · rw [loaded] at same
    exact (perform_congr shows_concealed small (load_same within) handler apart).trans
      (same.mono fun address here => .inl (covered address here))
  · rw [same address fun here => not_scratch_of_code code (covered address here)]
    have beyond := handlerCode_beyond code
    refine perform_of_apart _ small handler (by omega) ?_
    rw [loaded, dereferenced_load small within]
    exact fun listed => apart address listed (.inr code)

end Start

theorem fix_agrees (handler : Handler) (cpu : Cpu) (r : Nat) (within : r ≤ 15)
    (index : cpu.x = BitVec.ofNat 8 (2 * r))
    (apart : ∀ address ∈ dereferenced cpu.memory cpu.x handler,
      ¬ Scratch address ∧ ¬ HandlerCode address) :
    ∃ fuel first fuel' second,
      (Original.start handler cpu).runToReturn cpu.s fuel = some first ∧
      (Fix.start handler cpu).runToReturn cpu.s fuel' = some second ∧
      second.s = first.s ∧
      (∀ address, address.toNat < 32 → second.memory address = first.memory address) ∧
      (∀ address, ¬ Scratch address → ¬ HandlerCode address →
        second.memory address = first.memory address) ∧
      ∀ address, HandlerCode address →
        first.memory address = (Original.start handler cpu).memory address ∧
          second.memory address = (Fix.start handler cpu).memory address := by
  have small := toNat_index within index
  have shown : ∀ address ∈ dereferenced cpu.memory cpu.x handler, ¬ Concealed address :=
    fun address listed => not_or.mpr (apart address listed)
  have inOriginal (address : Word) (code : (Original.image address).isSome) : HandlerCode address :=
    .inl code
  have inFix (address : Word) (code : (Fix.image address).isSome) : HandlerCode address :=
    .inr code
  have original : Done Original.image StackPage (Original.start handler cpu)
      (perform (Original.start handler cpu).memory cpu.x handler) :=
    Original.performs handler (Image.installed_load _ _) rfl small fun address listed =>
      have ⟨shown, free⟩ := dereferenced_shown small inOriginal shown listed
      ⟨fun page => shown (.inr (.inr page)), free⟩
  have fix : Done Fix.image Scratch (Fix.start handler cpu)
      (perform (Fix.start handler cpu).memory cpu.x handler) :=
    Fix.performs handler (Image.installed_load _ _) rfl small fun address listed =>
      dereferenced_shown small inFix shown listed
  obtain ⟨fuel, first, ran, s, same, kept⟩ := start_returns small inOriginal shown
    (Original.start handler cpu) rfl rfl
    (fun _ page => .inr (.inr page)) original
  obtain ⟨fuel', second, ran', s', same', kept'⟩ := start_returns small inFix shown
    (Fix.start handler cpu) rfl rfl
    (fun _ scratch => scratch) fix
  have agree := same.symm.trans same'
  exact ⟨fuel, first, fuel', second, ran, ran', s'.trans s.symm,
    fun address register => agree address (shows_concealed address register),
    fun address scratch code => agree address (not_or.mpr ⟨scratch, code⟩),
    fun address code => ⟨kept address code, kept' address code⟩⟩

def poppingCpu : Cpu where
  a := 0x00
  x := 0x02
  y := 0x00
  s := 0xFD
  p := Flags.ofByte 0x00
  pc := 0x0000
  memory address := if address = 0x0002 then 0x02 else if address = 0x0003 then 0x20 else 0x5A

theorem poppingCpu_dereferenced :
    dereferenced poppingCpu.memory poppingCpu.x .popd = [0x2001, 0x2000] := by decide

theorem poppingCpu_apart : ∀ address ∈ dereferenced poppingCpu.memory poppingCpu.x .popd,
    ¬ Scratch address ∧ ¬ HandlerCode address := by
  rw [poppingCpu_dereferenced]
  intro address listed
  simp only [List.mem_cons, List.not_mem_nil, or_false] at listed
  rcases listed with rfl | rfl <;> decide

theorem fix_agrees_popd : ∃ fuel first fuel' second,
    (Original.start .popd poppingCpu).runToReturn poppingCpu.s fuel = some first ∧
    (Fix.start .popd poppingCpu).runToReturn poppingCpu.s fuel' = some second ∧
    second.s = first.s ∧
    (∀ address, address.toNat < 32 → second.memory address = first.memory address) ∧
    (∀ address, ¬ Scratch address → ¬ HandlerCode address →
      second.memory address = first.memory address) ∧
    ∀ address, HandlerCode address →
      first.memory address = (Original.start .popd poppingCpu).memory address ∧
        second.memory address = (Fix.start .popd poppingCpu).memory address :=
  fix_agrees .popd poppingCpu 1 (by decide) (by decide) poppingCpu_apart

end Akiso.Sweet16
