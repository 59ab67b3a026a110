import Akiso.Asm.PrimeRuns
import Akiso.Shared.I386Calls

set_option autoImplicit false

namespace Akiso.Primes

open I386

inductive MainLabel where
  | main
  | mainForBody
  | mainForIncrement
  | mainForCondition
  deriving DecidableEq, Repr

inductive Callee where
  | isPrime
  | printf
  deriving DecidableEq, Repr

-- LEA of a label loads its address, which the assembler knows.
def mainLines (format : Word) : List (Line MainLabel Callee) :=
  [.label .main,
    .plain (.push (.register .ebp)),
    .plain (.mov (.register .ebp) (.register .esp)),
    .plain (.sub (.register .esp) (.immediate 4#32)),
    .plain (.mov (.dword .ebp (-4#32)) (.immediate 1#32)),
    .jump .mainForCondition,
    .label .mainForBody,
    .plain (.push (.dword .ebp (-4#32))),
    .call .isPrime,
    .plain (.add (.register .esp) (.immediate 4#32)),
    .testByte .eax,
    .unless .notEqual .mainForIncrement,
    .plain (.push (.dword .ebp (-4#32))),
    .plain (.mov (.register .eax) (.immediate format)),
    .plain (.push (.register .eax)),
    .call .printf,
    .plain (.add (.register .esp) (.immediate 8#32)),
    .label .mainForIncrement,
    .plain (.add (.dword .ebp (-4#32)) (.immediate 1#32)),
    .label .mainForCondition,
    .plain (.cmp (.dword .ebp (-4#32)) (.immediate 9999#32)),
    .unless .greater .mainForBody,
    .plain (.mov (.register .eax) (.immediate 0#32)),
    .plain .leave,
    .plain .ret]

structure Printf where
  call : Machine → Machine
  -- The calling convention: a function leaves EBP and the stack of its caller.
  place : ∀ entered, (call entered).place = .returned (readWord entered.memory entered.esp)
  ebp : ∀ entered, (call entered).ebp = entered.ebp
  esp : ∀ entered, (call entered).esp = entered.esp + 4#32
  frame : ∀ entered offset, 12 ≤ offset.toNat → offset.toNat ≤ 24 →
    readWord (call entered).memory (entered.esp + offset) =
      readWord entered.memory (entered.esp + offset)

variable (undefined : Machine → Flags) (printf : Printf) (address : Nat → Word) (format : Word)

def callees : Library Callee (Word × Word) where
  calls
    | .isPrime, (entered, output), (returned, more) =>
      Runs code undefined (Proper entered.esp) { entered with place := Label.isPrime.place }
        returned ∧ more = output
    | .printf, (entered, output), (returned, more) =>
      returned = printf.call entered ∧
        more = output ++ [(readWord entered.memory (entered.esp + 4#32),
          readWord entered.memory (entered.esp + 8#32))]
  address

abbrev MainRuns : Machine × List (Word × Word) → Machine × List (Word × Word) → Prop :=
  Line.Runs (mainLines format) undefined (callees undefined printf address)

structure Frame (start : Machine) (memory : Memory) (i : Word) : Prop where
  saved : readWord memory (start.esp - 4#32) = start.ebp
  back : readWord memory start.esp = readWord start.memory start.esp
  argument : readWord memory (start.esp + 4#32) = argument start
  counter : readWord memory (start.esp - 8#32) = i

variable {undefined printf address format}
  {start machine : Machine} {i : Word} {memory other : Memory} {output : List (Word × Word)}

theorem Framed.frame (framed : Framed start machine i) : Frame start machine.memory i :=
  ⟨framed.saved, framed.back, framed.argument, framed.counter⟩

theorem Frame.framed (frame : Frame start machine.memory i)
    (ebp : machine.ebp = start.esp - 4#32) (esp : machine.esp = start.esp - 8#32) :
    Framed start machine i :=
  ⟨ebp, esp, frame.saved, frame.back, frame.argument, frame.counter⟩

theorem Frame.same (frame : Frame start memory i)
    (kept : ∀ offset : Word, offset.toNat ≤ 12 →
      readWord other (start.esp - 8#32 + offset) = readWord memory (start.esp - 8#32 + offset)) :
    Frame start other i := by
  have first := kept 0#32 (by decide)
  have second := kept 4#32 (by decide)
  have third := kept 8#32 (by decide)
  have fourth := kept 12#32 (by decide)
  have one : start.esp - 8#32 + 0#32 = start.esp - 8#32 := by bv_omega
  have two : start.esp - 8#32 + 4#32 = start.esp - 4#32 := by bv_omega
  have three : start.esp - 8#32 + 8#32 = start.esp := by bv_omega
  have four : start.esp - 8#32 + 12#32 = start.esp + 4#32 := by bv_omega
  rw [one] at first
  rw [two] at second
  rw [three] at third
  rw [four] at fourth
  exact ⟨second.trans frame.saved, third.trans frame.back, fourth.trans frame.argument,
    first.trans frame.counter⟩

theorem Frame.below (frame : Frame start memory i) {word value : Word}
    (under : 4 ≤ (start.esp - 8#32 - word).toNat) (near : (start.esp - 8#32 - word).toNat ≤ 12) :
    Frame start (writeWord memory word value) i := by
  refine frame.same fun offset small => readWord_of_apart _ _ ?_
  constructor <;> bv_omega

theorem entry_prints (here : start.place = .line 0) :
    ∃ next i, MainRuns undefined printf address format (start, output) (next, output) ∧
      Framed start next i ∧ next.place = .line 4 := by
  have back : Apart start.esp (start.esp - 4#32) := by constructor <;> bv_omega
  have argument : Apart (start.esp + 4#32) (start.esp - 4#32) := by constructor <;> bv_omega
  have down : start.esp - 4#32 - 4#32 = start.esp - 8#32 := by bv_omega
  refine ⟨_, readWord (writeWord start.memory (start.esp - 4#32) start.ebp) (start.esp - 8#32),
    .line here rfl rfl (.line rfl rfl rfl (.line rfl rfl rfl (.line rfl rfl rfl .refl))), ?_,
    rfl⟩
  exact ⟨rfl, down, readWord_writeWord _ _ _, readWord_of_apart _ _ back,
    readWord_of_apart _ _ argument, rfl⟩

theorem init_prints (framed : Framed start machine i) (here : machine.place = .line 4) :
    ∃ next, MainRuns undefined printf address format (machine, output) (next, output) ∧
      Framed start next 1#32 ∧ next.place = .line 19 := by
  refine ⟨_, .line here rfl rfl (.line rfl rfl rfl .refl), ?_, rfl⟩
  refine (framed.store 1#32).congr rfl rfl ?_
  simp only [Machine.goto, Machine.store, Machine.value, Machine.address, Machine.get]
  rw [framed.ebp, counter_address]

theorem condition_prints (framed : Framed start machine i) (here : machine.place = .line 19) :
    ∃ next, MainRuns undefined printf address format (machine, output) (next, output) ∧
      Framed start next i ∧
      next.place = if 9999 < i.toInt then .line 22 else .line 6 := by
  have holds : (Flags.difference (readWord machine.memory (machine.ebp + -4#32)) 9999#32).holds
      .greater = decide (9999 < i.toInt) := by
    rw [holds_greater, framed.read_counter]
    rfl
  by_cases above : 9999 < i.toInt
  · rw [decide_eq_true above] at holds
    rw [if_pos above]
    exact ⟨_, .line here rfl rfl (.line rfl rfl rfl
      (.line rfl rfl (Machine.unless_passed holds) .refl)), framed.congr rfl rfl rfl, rfl⟩
  · rw [decide_eq_false above] at holds
    rw [if_neg above]
    exact ⟨_, .line here rfl rfl (.line rfl rfl rfl
      (.line rfl rfl (Machine.unless_taken holds) .refl)), framed.congr rfl rfl rfl, rfl⟩

theorem frame_apart {start : Machine} {entered : Word} (below : entered = start.esp - 16#32)
    {offset : Word} (small : offset.toNat ≤ 12) : ∀ (machine : Machine) instruction,
    Proper entered machine instruction → ∀ word ∈ machine.touched instruction,
      Apart (start.esp - 8#32 + offset) word := by
  intro machine instruction proper word touched
  rcases proper.1 word touched with rfl | rfl | rfl | rfl <;> constructor <;> bv_omega

theorem call_prints (framed : Framed start machine i) (here : machine.place = .line 6) :
    ∃ next, MainRuns undefined printf address format (machine, output) (next, output) ∧
      Framed start next i ∧ next.eax = result (isPrime i.toInt) ∧ next.place = .line 10 := by
  have esp := framed.esp
  let pushed : Machine := { machine with
    esp := machine.esp - 4#32
    memory := writeWord machine.memory (machine.esp - 4#32)
      (readWord machine.memory (machine.ebp + -4#32))
    place := .line 8 }
  let entered : Machine := { pushed.push (address 9) with place := Label.isPrime.place }
  have above : pushed.esp = start.esp - 12#32 := by
    change machine.esp - 4#32 = _
    rw [esp]
    bv_omega
  have low : entered.esp = start.esp - 16#32 := by
    change pushed.esp - 4#32 = _
    rw [above]
    bv_omega
  have framedMemory : Frame start entered.memory i := by
    have first : Frame start pushed.memory i := by
      refine framed.frame.below ?_ ?_ <;> rw [esp] <;> bv_omega
    refine first.below ?_ ?_ <;> rw [above] <;> bv_omega
  have number : argument entered = i := by
    have apart : Apart (start.esp - 12#32) (start.esp - 16#32) := by constructor <;> bv_omega
    have place : entered.esp + 4#32 = pushed.esp := by
      rw [low, above]
      bv_omega
    have under : pushed.esp - 4#32 = start.esp - 16#32 := low
    change readWord (writeWord pushed.memory (pushed.esp - 4#32) (address 9)) _ = _
    rw [place, under, above, readWord_of_apart _ _ apart, ← above]
    exact (readWord_writeWord _ _ _).trans framed.read_counter
  have back : readWord entered.memory entered.esp = address 9 := readWord_writeWord _ _ _
  obtain ⟨returned, runs, returns⟩ := isPrime_runs undefined entered rfl
  have kept : Frame start returned.memory i := framedMemory.same fun offset small =>
    runs.keeps (frame_apart low small)
  let next : Machine := { returned with
    esp := returned.esp + 4#32
    flags := .sum returned.esp 4#32
    place := .line 10 }
  refine ⟨next, .line here rfl rfl (.line rfl rfl rfl (.call rfl rfl ⟨runs, rfl⟩ ?_
    (.line rfl rfl rfl .refl))), ?_, ?_, rfl⟩
  · exact returns.place.trans (congrArg Place.returned back)
  · have framed : next.ebp = start.esp - 4#32 := returns.ebp.trans framed.ebp
    refine Frame.framed (show Frame start next.memory i from kept) framed ?_
    change returned.esp + 4#32 = _
    rw [returns.esp, low]
    bv_omega
  · change returned.eax = _
    rw [returns.eax, number]

theorem test_prints (framed : Framed start machine i) (here : machine.place = .line 10)
    {prime : Bool} (decided : machine.eax = result prime) :
    ∃ next, MainRuns undefined printf address format (machine, output) (next, output) ∧
      Framed start next i ∧ next.place = if prime then .line 12 else .line 17 := by
  have holds : (Flags.ofByte (machine.eax.setWidth 8)).holds .notEqual = prime := by
    rw [decided]
    cases prime <;> decide
  cases prime with
  | true =>
    exact ⟨_, .line here rfl rfl (.line rfl rfl (Machine.unless_passed holds) .refl),
      framed.congr rfl rfl rfl, rfl⟩
  | false =>
    exact ⟨_, .line here rfl rfl (.line rfl rfl (Machine.unless_taken holds) .refl),
      framed.congr rfl rfl rfl, rfl⟩

theorem print_prints (framed : Framed start machine i) (here : machine.place = .line 12) :
    ∃ next, MainRuns undefined printf address format (machine, output)
        (next, output ++ [(format, i)]) ∧
      Framed start next i ∧ next.place = .line 17 := by
  have esp := framed.esp
  let numbered : Machine := { machine with
    esp := machine.esp - 4#32
    memory := writeWord machine.memory (machine.esp - 4#32)
      (readWord machine.memory (machine.ebp + -4#32))
    place := .line 13 }
  let formatted : Machine := { numbered with
    eax := format
    esp := numbered.esp - 4#32
    memory := writeWord numbered.memory (numbered.esp - 4#32) format
    place := .line 15 }
  let entered : Machine := formatted.push (address 16)
  have first : numbered.esp = start.esp - 12#32 := by
    change machine.esp - 4#32 = _
    rw [esp]
    bv_omega
  have second : formatted.esp = start.esp - 16#32 := by
    change numbered.esp - 4#32 = _
    rw [first]
    bv_omega
  have third : entered.esp = start.esp - 20#32 := by
    change formatted.esp - 4#32 = _
    rw [second]
    bv_omega
  have frame : Frame start entered.memory i := by
    have one : Frame start numbered.memory i := by
      refine framed.frame.below ?_ ?_ <;> rw [esp] <;> bv_omega
    have two : Frame start formatted.memory i := by
      refine one.below ?_ ?_ <;> rw [first] <;> bv_omega
    refine two.below ?_ ?_ <;> rw [second] <;> bv_omega
  have given : readWord entered.memory (entered.esp + 4#32) = format ∧
      readWord entered.memory (entered.esp + 8#32) = i := by
    have one : entered.esp + 4#32 = formatted.esp := by
      rw [third, second]
      bv_omega
    have two : entered.esp + 8#32 = numbered.esp := by
      rw [third, first]
      bv_omega
    have apart : ∀ address, Apart address entered.esp → readWord entered.memory address =
        readWord formatted.memory address := fun address apart => readWord_of_apart _ _ apart
    have between : Apart numbered.esp formatted.esp := by
      rw [first, second]
      constructor <;> bv_omega
    rw [one, two, apart formatted.esp (by rw [second, third]; constructor <;> bv_omega),
      apart numbered.esp (by rw [first, third]; constructor <;> bv_omega)]
    refine ⟨readWord_writeWord _ _ _, (readWord_of_apart _ _ between).trans ?_⟩
    exact (readWord_writeWord _ _ _).trans framed.read_counter
  let returned := printf.call entered
  have kept : Frame start returned.memory i := by
    refine frame.same fun offset small => ?_
    have inside := printf.frame entered (offset + 12#32) (by bv_omega) (by bv_omega)
    have place : entered.esp + (offset + 12#32) = start.esp - 8#32 + offset := by
      rw [third]
      bv_omega
    rwa [place] at inside
  have back : returned.place = .returned (address 16) :=
    (printf.place entered).trans (congrArg Place.returned (readWord_writeWord _ _ _))
  let next : Machine := { returned with
    esp := returned.esp + 8#32
    flags := .sum returned.esp 8#32
    place := .line 17 }
  refine ⟨next, .line here rfl rfl (.line rfl rfl rfl (.line rfl rfl rfl
    (.call rfl rfl ⟨rfl, ?_⟩ back (.line rfl rfl rfl .refl)))), ?_, rfl⟩
  · exact congrArg (output ++ [·]) (Prod.ext given.1.symm given.2.symm)
  · have ebp : next.ebp = start.esp - 4#32 := (printf.ebp entered).trans framed.ebp
    refine Frame.framed (show Frame start next.memory i from kept) ebp ?_
    change returned.esp + 8#32 = _
    rw [show returned.esp = entered.esp + 4#32 from printf.esp entered, third]
    bv_omega

theorem increment_prints (framed : Framed start machine i) (here : machine.place = .line 17) :
    ∃ next, MainRuns undefined printf address format (machine, output) (next, output) ∧
      Framed start next (i + 1#32) ∧ next.place = .line 19 := by
  refine ⟨_, .line here rfl rfl (.line rfl rfl rfl .refl), ?_, rfl⟩
  refine (framed.store (i + 1#32)).congr rfl rfl ?_
  simp only [Machine.store, Machine.value, Machine.address, Machine.get]
  rw [framed.read_counter, framed.ebp, counter_address]

theorem exit_prints (framed : Framed start machine i) (here : machine.place = .line 22) :
    ∃ last, MainRuns undefined printf address format (machine, output) (last, output) ∧
      Returns start last 0#32 := by
  have back : start.esp - 4#32 + 4#32 = start.esp := by bv_omega
  refine ⟨_, .line here rfl rfl (.line rfl rfl rfl (.line rfl rfl rfl .refl)), ?_, rfl, ?_, ?_⟩
  · simp [framed.ebp, back, framed.back]
  · simp [framed.ebp, framed.saved]
  · simp [framed.ebp, back]

def printed (format : Word) (bound : Nat) : List (Word × Word) :=
  ((List.range bound).filter fun number => number.Prime).map fun number =>
    (format, BitVec.ofNat 32 number)

theorem printed_succ (format : Word) (number : Nat) : printed format (number + 1) =
    printed format number ++ if number.Prime then [(format, BitVec.ofNat 32 number)] else [] := by
  unfold printed
  rw [List.range_succ, List.filter_append, List.map_append]
  congr 1
  by_cases prime : number.Prime <;> simp [prime]

theorem toInt_small {number : Nat} (small : number ≤ 10000) :
    (BitVec.ofNat 32 number).toInt = number := by
  rw [BitVec.toInt_eq_toNat_of_lt] <;> rw [BitVec.toNat_ofNat, Nat.mod_eq_of_lt] <;> omega

theorem turn_prints {number : Nat} (small : number ≤ 9999)
    (framed : Framed start machine (BitVec.ofNat 32 number)) (here : machine.place = .line 6) :
    ∃ next, MainRuns undefined printf address format (machine, printed format number)
        (next, printed format (number + 1)) ∧
      Framed start next (BitVec.ofNat 32 (number + 1)) ∧ next.place = .line 19 := by
  obtain ⟨called, calls, kept, decided, behind⟩ := call_prints framed here
  obtain ⟨tested, tests, same, chosen⟩ := test_prints kept behind decided
  have prime : isPrime (BitVec.ofNat 32 number).toInt = decide number.Prime := by
    rw [toInt_small (by omega), Bool.eq_iff_iff, isPrime_iff, decide_eq_true_eq,
      Int.toNat_natCast]
  rw [prime] at chosen
  have next : BitVec.ofNat 32 number + 1#32 = BitVec.ofNat 32 (number + 1) :=
    (BitVec.ofNat_add number 1).symm
  by_cases accepted : number.Prime
  · rw [decide_eq_true accepted] at chosen
    obtain ⟨written, prints, framed, place⟩ := print_prints same chosen
    obtain ⟨last, increments, framed, place⟩ := increment_prints framed place
    refine ⟨last, ?_, next ▸ framed, place⟩
    rw [printed_succ, if_pos accepted]
    exact ((calls.trans tests).trans prints).trans increments
  · rw [decide_eq_false accepted] at chosen
    obtain ⟨last, increments, framed, place⟩ := increment_prints same chosen
    refine ⟨last, ?_, next ▸ framed, place⟩
    rw [printed_succ, if_neg accepted, List.append_nil]
    exact (calls.trans tests).trans increments

-- The induction is on the numbers that are left.
theorem main_loop_prints {number : Nat} (left : Nat) (total : number + left = 10000)
    (framed : Framed start machine (BitVec.ofNat 32 number)) (here : machine.place = .line 19) :
    ∃ last, MainRuns undefined printf address format (machine, printed format number)
        (last, printed format 10000) ∧ Returns start last 0#32 := by
  induction left generalizing machine number with
  | zero =>
    obtain rfl : number = 10000 := by omega
    obtain ⟨next, leaves, kept, place⟩ := condition_prints framed here
    rw [toInt_small (Nat.le_refl _), if_pos (by omega)] at place
    obtain ⟨last, ends, returns⟩ := exit_prints kept place
    exact ⟨last, leaves.trans ends, returns⟩
  | succ left ih =>
    obtain ⟨entered, enters, kept, place⟩ := condition_prints framed here
    rw [toInt_small (by omega), if_neg (by omega)] at place
    obtain ⟨next, turns, framed, place⟩ := turn_prints (by omega) kept place
    obtain ⟨last, onward, returns⟩ := ih (by omega) framed place
    exact ⟨last, (enters.trans turns).trans onward, returns⟩

/-- The program prints the primes below 10000 and nothing else, in their order, and returns 0,
whatever printf does to the registers and the memory that are its own. -/
theorem main_prints (undefined : Machine → Flags) (printf : Printf) (address : Nat → Word)
    (format : Word) (start : Machine) (entered : start.place = .line 0) :
    ∃ last, MainRuns undefined printf address format (start, [])
        (last, ((List.range 10000).filter fun number => number.Prime).map fun number =>
          (format, BitVec.ofNat 32 number)) ∧
      Returns start last 0#32 := by
  obtain ⟨framing, i, enters, framed, place⟩ := entry_prints entered
  obtain ⟨ready, readies, framed, place⟩ := init_prints framed place
  obtain ⟨last, loops, returns⟩ := main_loop_prints 9999 rfl framed place
  exact ⟨last, (enters.trans readies).trans loops, returns⟩

def plainPrintf : Printf where
  call entered := { entered with
    eax := BitVec.ofNat 32
      ((Nat.toDigits 10 (readWord entered.memory (entered.esp + 8#32)).toNat).length + 1)
    esp := entered.esp + 4#32
    place := .returned (readWord entered.memory entered.esp) }
  place _ := rfl
  ebp _ := rfl
  esp _ := rfl
  frame _ _ _ _ := rfl

def startedMain : Machine :=
  { calledWithSeven with place := .line 0 }

theorem main_prints_started :
    ∃ last, MainRuns Machine.flags plainPrintf (fun line => BitVec.ofNat 32 (0x8048400 + 4 * line))
        0x8049000#32 (startedMain, [])
        (last, ((List.range 10000).filter fun number => number.Prime).map fun number =>
          (0x8049000#32, BitVec.ofNat 32 number)) ∧
      Returns startedMain last 0#32 :=
  main_prints Machine.flags plainPrintf _ 0x8049000#32 startedMain rfl

end Akiso.Primes
