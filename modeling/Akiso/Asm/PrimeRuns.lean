import Akiso.Asm.Primes

set_option autoImplicit false

namespace Akiso.Primes

open I386

structure Framed (start machine : Machine) (i : Word) : Prop where
  ebp : machine.ebp = start.esp - 4#32
  esp : machine.esp = start.esp - 8#32
  saved : readWord machine.memory (start.esp - 4#32) = start.ebp
  back : readWord machine.memory start.esp = readWord start.memory start.esp
  argument : readWord machine.memory (start.esp + 4#32) = argument start
  counter : readWord machine.memory (start.esp - 8#32) = i

variable {undefined : Machine → Flags} {start machine : Machine} {i : Word}

theorem counter_address (start : Machine) : start.esp - 4#32 + -4#32 = start.esp - 8#32 := by
  bv_omega

theorem argument_address (start : Machine) : start.esp - 4#32 + 8#32 = start.esp + 4#32 := by
  bv_omega

theorem Framed.store (framed : Framed start machine i) (value : Word) :
    Framed start
      { machine with memory := writeWord machine.memory (start.esp - 8#32) value } value := by
  have saved : Apart (start.esp - 4#32) (start.esp - 8#32) := by constructor <;> bv_omega
  have back : Apart start.esp (start.esp - 8#32) := by constructor <;> bv_omega
  have argument : Apart (start.esp + 4#32) (start.esp - 8#32) := by constructor <;> bv_omega
  exact ⟨framed.ebp, framed.esp, (readWord_of_apart _ _ saved).trans framed.saved,
    (readWord_of_apart _ _ back).trans framed.back,
    (readWord_of_apart _ _ argument).trans framed.argument, readWord_writeWord _ _ _⟩

theorem exit_runs (framed : Framed start machine i) (here : machine.place = .line 27) :
    ∃ last, Runs code undefined (Proper start.esp) machine last ∧
      Returns start last machine.eax := by
  have back : start.esp - 4#32 + 4#32 = start.esp := by bv_omega
  refine ⟨_, .line here rfl ⟨by simp, by simp⟩ rfl
    (.line rfl rfl ⟨?_, by simp⟩ rfl (.line rfl rfl ⟨?_, by simp⟩ rfl .refl)), ?_⟩
  · simp [OwnWord, framed.ebp]
  · simp [OwnWord, framed.ebp, back]
  · refine ⟨?_, rfl, ?_, ?_⟩
    · simp [framed.ebp, back, framed.back]
    · simp [framed.ebp, framed.saved]
    · simp [framed.ebp, back]

theorem Framed.congr (framed : Framed start machine i) {other : Machine}
    (ebp : other.ebp = machine.ebp) (esp : other.esp = machine.esp)
    (memory : other.memory = machine.memory) : Framed start other i :=
  ⟨ebp.trans framed.ebp, esp.trans framed.esp, memory ▸ framed.saved, memory ▸ framed.back,
    memory ▸ framed.argument, memory ▸ framed.counter⟩

theorem Framed.own_counter (framed : Framed start machine i) :
    OwnWord start.esp (machine.ebp + -4#32) := by
  rw [framed.ebp, counter_address]
  exact .inl rfl

theorem Framed.own_argument (framed : Framed start machine i) :
    OwnWord start.esp (machine.ebp + 8#32) := by
  rw [framed.ebp, argument_address]
  exact .inr (.inr (.inr rfl))

theorem Framed.read_counter (framed : Framed start machine i) :
    readWord machine.memory (machine.ebp + -4#32) = i := by
  rw [framed.ebp, counter_address, framed.counter]

theorem Framed.read_argument (framed : Framed start machine i) :
    readWord machine.memory (machine.ebp + 8#32) = Primes.argument start := by
  rw [framed.ebp, argument_address, framed.argument]

theorem divide_runs (framed : Framed start machine i) (here : machine.place = .line 11)
    (positive : 0 < i.toInt) :
    ∃ next, Runs code undefined (Proper start.esp) machine next ∧ Framed start next i ∧
      next.place = .line 17 ∧
      next.flags.holds .notEqual = decide ((argument start).toInt.tmod i.toInt ≠ 0) := by
  refine ⟨_, .line here rfl ⟨by simp, by simp⟩ rfl
    (.line rfl rfl ⟨?_, by simp⟩ rfl
    (.line rfl rfl ⟨by simp, by simp⟩ rfl
    (.line rfl rfl ⟨?_, by simp⟩ (Machine.divide_extended undefined rfl ?_)
    (.line rfl rfl ⟨by simp, by simp⟩ rfl
    (.line rfl rfl ⟨by simp, by simp⟩ rfl .refl))))), ?_, rfl, ?_⟩
  · simpa using framed.own_argument
  · simpa using framed.own_counter
  · change 0 < (readWord machine.memory (machine.ebp + -4#32)).toInt
    rwa [framed.read_counter]
  · exact framed.congr rfl rfl rfl
  · change (Flags.ofResult (_ &&& _) _).holds .notEqual = _
    rw [holds_notEqual]
    change decide (BitVec.ofInt 32 ((readWord machine.memory (machine.ebp + 8#32)).toInt.tmod
      (readWord machine.memory (machine.ebp + -4#32)).toInt) ≠ 0#32) = _
    rw [framed.read_counter, framed.read_argument]
    simp only [ne_eq, remainder_eq_zero _ positive]

theorem body_runs (framed : Framed start machine i) (here : machine.place = .line 11)
    (positive : 0 < i.toInt) :
    ∃ next, Runs code undefined (Proper start.esp) machine next ∧ Framed start next i ∧
      if (argument start).toInt.tmod i.toInt = 0 then next.place = .line 27 ∧ next.eax = 0#32
      else next.place = .line 20 := by
  obtain ⟨tested, run, kept, place, holds⟩ :=
    divide_runs framed here positive
  by_cases divides : (argument start).toInt.tmod i.toInt = 0
  · simp only [divides, ne_eq, not_true, decide_false] at holds
    simp only [divides, if_true]
    exact ⟨_, run.trans (.line place rfl ⟨by simp, by simp⟩ (Machine.jcc_passed holds)
      (.line rfl rfl ⟨by simp, by simp⟩ rfl (.line rfl rfl ⟨by simp, by simp⟩ rfl .refl))),
      kept.congr rfl rfl rfl, rfl, rfl⟩
  · simp only [divides, ne_eq, not_false_eq_true, decide_true] at holds
    simp only [divides, if_false]
    exact ⟨_, run.trans (.line place rfl ⟨by simp, by simp⟩ (Machine.jcc_taken holds) .refl),
      kept.congr rfl rfl rfl, rfl⟩

theorem condition_runs (framed : Framed start machine i) (here : machine.place = .line 22) :
    ∃ next, Runs code undefined (Proper start.esp) machine next ∧ Framed start next i ∧
      if i.toInt < (argument start).toInt then next.place = .line 11
      else next.place = .line 27 ∧ next.eax = 1#32 := by
  have holds : (Flags.difference (readWord machine.memory (machine.ebp + -4#32))
      (readWord machine.memory (machine.ebp + 8#32))).holds .less =
      decide (i.toInt < (argument start).toInt) := by
    rw [holds_less, framed.read_counter, framed.read_argument]
  have counter := framed.own_counter
  have argument := framed.own_argument
  by_cases less : i.toInt < (Primes.argument start).toInt
  · rw [decide_eq_true less] at holds
    simp only [less, if_true]
    exact ⟨_, .line here rfl ⟨by simp, by simp⟩ rfl
      (.line rfl rfl ⟨by simpa using counter, by simp⟩ rfl
      (.line rfl rfl ⟨by simpa using argument, by simp⟩ rfl
      (.line rfl rfl ⟨by simp, by simp⟩ (Machine.jcc_taken holds) .refl))),
      framed.congr rfl rfl rfl, rfl⟩
  · rw [decide_eq_false less] at holds
    simp only [less, if_false]
    exact ⟨_, .line here rfl ⟨by simp, by simp⟩ rfl
      (.line rfl rfl ⟨by simpa using counter, by simp⟩ rfl
      (.line rfl rfl ⟨by simpa using argument, by simp⟩ rfl
      (.line rfl rfl ⟨by simp, by simp⟩ (Machine.jcc_passed holds)
      (.line rfl rfl ⟨by simp, by simp⟩ rfl .refl)))),
      framed.congr rfl rfl rfl, rfl, rfl⟩

theorem toInt_succ (room : i.toInt < 2147483647) : (i + 1#32).toInt = i.toInt + 1 := by
  have range := toInt_range i
  rw [BitVec.toInt_add, show (1#32).toInt = 1 from rfl]
  exact Int.bmod_eq_of_le (by omega) (by omega)

theorem increment_runs (framed : Framed start machine i) (here : machine.place = .line 20)
    (room : i.toInt < 2147483647) :
    ∃ next, Runs code undefined (Proper start.esp) machine next ∧
      Framed start next (i + 1#32) ∧ next.place = .line 22 := by
  have counter := framed.own_counter
  have sum : (readWord machine.memory (machine.ebp + -4#32) + 1#32).toInt =
      (readWord machine.memory (machine.ebp + -4#32)).toInt + (1#32).toInt := by
    rw [framed.read_counter]
    exact toInt_succ room
  refine ⟨_, .line here rfl ⟨by simp, by simp⟩ rfl
    (.line rfl rfl ⟨by simpa using counter, ?_⟩ rfl .refl), ?_, rfl⟩
  · rintro target source same
    cases same
    exact sum
  · refine (framed.store (i + 1#32)).congr rfl rfl ?_
    simp only [Machine.store, Machine.value, Machine.address, Machine.get]
    rw [framed.read_counter, framed.ebp, counter_address]

def result (prime : Bool) : Word :=
  if prime then 1#32 else 0#32

-- The loop computes what the one of the C program does. The induction is on the candidates that are
-- left.
theorem loop_runs (framed : Framed start machine i) (here : machine.place = .line 22)
    (least : 2 ≤ i.toInt) :
    ∃ last, Runs code undefined (Proper start.esp) machine last ∧
      Returns start last (result (isPrimeFrom (argument start).toInt i.toInt)) := by
  induction left : ((argument start).toInt - i.toInt).toNat generalizing machine i with
  | zero =>
    obtain ⟨passed, run, kept, ends⟩ := condition_runs framed here
    have beyond : ¬ i.toInt < (argument start).toInt := by omega
    rw [if_neg beyond] at ends
    obtain ⟨last, onward, returns⟩ := exit_runs kept ends.1
    refine ⟨last, run.trans onward, ?_⟩
    rwa [isPrimeFrom, if_neg beyond, result, if_pos rfl, ← ends.2]
  | succ count ih =>
    obtain ⟨entered, run, kept, enters⟩ := condition_runs framed here
    have below : i.toInt < (argument start).toInt := by omega
    have range := toInt_range (argument start)
    rw [if_pos below] at enters
    obtain ⟨tested, body, same, ends⟩ :=
      body_runs kept enters (by omega)
    rw [isPrimeFrom, if_pos below]
    by_cases divides : (argument start).toInt.tmod i.toInt = 0
    · rw [if_pos divides] at ends ⊢
      obtain ⟨last, onward, returns⟩ := exit_runs same ends.1
      refine ⟨last, (run.trans body).trans onward, ?_⟩
      rwa [result, if_neg Bool.false_ne_true, ← ends.2]
    · rw [if_neg divides] at ends ⊢
      obtain ⟨next, up, counted, place⟩ :=
        increment_runs same ends (by omega)
      have succ := toInt_succ (i := i) (by omega)
      obtain ⟨last, onward, returns⟩ := ih counted place (by omega) (by omega)
      rw [succ] at returns
      exact ⟨last, ((run.trans body).trans up).trans onward, returns⟩

theorem entry_runs (entered : start.place = Label.isPrime.place) :
    ∃ next i, Runs code undefined (Proper start.esp) start next ∧ Framed start next i ∧
      next.place = .line 5 ∧
      next.flags.holds .greater = decide (1 < (argument start).toInt) := by
  have here : start.place = .line 0 := entered
  have pushed : OwnWord start.esp (start.esp - 4#32) := .inr (.inl rfl)
  have read : OwnWord start.esp (start.esp - 4#32 + 8#32) := by
    rw [argument_address]
    exact .inr (.inr (.inr rfl))
  have back : Apart start.esp (start.esp - 4#32) := by constructor <;> bv_omega
  have argument : Apart (start.esp + 4#32) (start.esp - 4#32) := by constructor <;> bv_omega
  have down : start.esp - 4#32 - 4#32 = start.esp - 8#32 := by bv_omega
  have kept := readWord_of_apart start.memory start.ebp argument
  refine ⟨_, readWord (writeWord start.memory (start.esp - 4#32) start.ebp) (start.esp - 8#32),
    .line here rfl ⟨by simp, by simp⟩ rfl
    (.line rfl rfl ⟨by simpa using pushed, by simp⟩ rfl
    (.line rfl rfl ⟨by simp, by simp⟩ rfl
    (.line rfl rfl ⟨by simp, by simp⟩ rfl
    (.line rfl rfl ⟨by simpa using read, by simp⟩ rfl .refl)))), ?_, rfl, ?_⟩
  · exact ⟨rfl, down, readWord_writeWord _ _ _, readWord_of_apart _ _ back, kept, rfl⟩
  · change (Flags.difference (readWord (writeWord start.memory (start.esp - 4#32) start.ebp)
      (start.esp - 4#32 + 8#32)) 1#32).holds .greater = _
    rw [holds_greater, argument_address, kept]
    rfl

theorem init_runs (framed : Framed start machine i) (here : machine.place = .line 8) :
    ∃ next, Runs code undefined (Proper start.esp) machine next ∧ Framed start next 2#32 ∧
      next.place = .line 22 := by
  have counter := framed.own_counter
  refine ⟨_, .line here rfl ⟨by simp, by simp⟩ rfl
    (.line rfl rfl ⟨by simpa using counter, by simp⟩ rfl
    (.line rfl rfl ⟨by simp, by simp⟩ rfl .refl)), ?_, rfl⟩
  refine (framed.store 2#32).congr rfl rfl ?_
  simp only [Machine.jump, Machine.store, Machine.value, Machine.address, Machine.get]
  rw [framed.ebp, counter_address]

theorem isPrime_runs (undefined : Machine → Flags) (start : Machine)
    (entered : start.place = Label.isPrime.place) :
    ∃ last, Runs code undefined (Proper start.esp) start last ∧
      Returns start last (result (isPrime (argument start).toInt)) := by
  obtain ⟨compared, i, run, framed, place, holds⟩ := entry_runs entered
  by_cases above : 1 < (argument start).toInt
  · rw [decide_eq_true above] at holds
    obtain ⟨next, jumps, kept, there⟩ : ∃ next,
        Runs code undefined (Proper start.esp) compared next ∧ Framed start next i ∧
          next.place = .line 8 :=
      ⟨_, .line place rfl ⟨by simp, by simp⟩ (Machine.jcc_taken holds) .refl,
        framed.congr rfl rfl rfl, rfl⟩
    obtain ⟨first, init, counted, condition⟩ := init_runs kept there
    obtain ⟨last, loop, returns⟩ := loop_runs counted condition (by decide)
    refine ⟨last, ((run.trans jumps).trans init).trans loop, ?_⟩
    rw [isPrime, if_neg (by omega)]
    exact returns
  · rw [decide_eq_false above] at holds
    obtain ⟨next, rejects, kept, there, eax⟩ : ∃ next,
        Runs code undefined (Proper start.esp) compared next ∧ Framed start next i ∧
          next.place = .line 27 ∧ next.eax = 0#32 :=
      ⟨_, .line place rfl ⟨by simp, by simp⟩ (Machine.jcc_passed holds)
        (.line rfl rfl ⟨by simp, by simp⟩ rfl (.line rfl rfl ⟨by simp, by simp⟩ rfl .refl)),
        framed.congr rfl rfl rfl, rfl, rfl⟩
    obtain ⟨last, ends, returns⟩ := exit_runs kept there
    refine ⟨last, (run.trans rejects).trans ends, ?_⟩
    rw [isPrime, if_pos (by omega)]
    rwa [eax] at returns

theorem isPrime_decides (undefined : Machine → Flags) (start : Machine)
    (entered : start.place = Label.isPrime.place) :
    ∃ last, Runs code undefined (Proper start.esp) start last ∧
      Returns start last (result (isPrime (argument start).toInt)) ∧
      ((argument start).toInt.toNat.Prime → last.eax = 1#32) ∧
      (¬ (argument start).toInt.toNat.Prime → last.eax = 0#32) := by
  obtain ⟨last, run, returns⟩ := isPrime_runs undefined start entered
  refine ⟨last, run, returns, fun prime => ?_, fun composite => ?_⟩
  · rw [returns.eax, (isPrime_iff _).mpr prime]
    rfl
  · rw [returns.eax, Bool.eq_false_iff.mpr fun accepted => composite ((isPrime_iff _).mp accepted)]
    rfl

def calledWithSeven : Machine where
  eax := 0
  edx := 0
  ebp := 0x2000
  esp := 0x1000
  flags := { zero := false, sign := true, overflow := false }
  place := Label.isPrime.place
  memory := writeWord (writeWord (fun _ => 0) 0x1000 0x8049000) 0x1004 7

theorem isPrime_decides_seven :
    ∃ last, Runs code Machine.flags (Proper calledWithSeven.esp) calledWithSeven last ∧
      Returns calledWithSeven last (result (isPrime (argument calledWithSeven).toInt)) ∧
      ((argument calledWithSeven).toInt.toNat.Prime → last.eax = 1#32) ∧
      (¬ (argument calledWithSeven).toInt.toNat.Prime → last.eax = 0#32) :=
  isPrime_decides Machine.flags calledWithSeven rfl

end Akiso.Primes
