import Akiso.Shell.Line
import Mathlib.Logic.Function.Basic

set_option autoImplicit false

namespace Akiso.Shell

open CString Strtol

structure LineBuffer where
  memory : List UInt8
  outside : Int → UInt8
  touched : List Int

def LineBuffer.get (buff : LineBuffer) (index : Int) : UInt8 :=
  if 0 ≤ index ∧ index < buff.memory.length then buff.memory.getD index.toNat 0
  else buff.outside index

def LineBuffer.put (buff : LineBuffer) (index : Int) (value : UInt8) : LineBuffer :=
  if 0 ≤ index ∧ index < buff.memory.length then
    { buff with memory := buff.memory.set index.toNat value }
  else { buff with outside := Function.update buff.outside index value }

def LineBuffer.touch (buff : LineBuffer) (index : Int) : LineBuffer :=
  { buff with touched := buff.touched ++ [index] }

def LineBuffer.measure (buff : LineBuffer) : LineBuffer :=
  { buff with
    touched := buff.touched ++ (List.range (strlen buff.memory + 1)).map Int.ofNat }

def wrapped (index : Nat) : Int :=
  (index : Int).bmod 18446744073709551616

def trimEndLoop (characters : List UInt8) : Nat → Int → LineBuffer → Option LineBuffer
  | 0, _, _ => none
  | fuel + 1, i, buff =>
    if 0 < i then
      if charInSet (buff.get i) characters then
        trimEndLoop characters fuel (i + 1) (((buff.touch i).touch i).put i 0)
      else some (buff.touch i)
    else some buff

def trimEndInto (characters : List UInt8) (fuel : Nat) (buff : LineBuffer) : Option LineBuffer :=
  trimEndLoop characters fuel (toInt (toSize ((strlen buff.memory : Int) - 1))) buff.measure

structure Indexed where
  trimming : LineBuffer
  marking : LineBuffer
  bg : Bool

def markAt (trimming : LineBuffer) (last : Int) : Indexed :=
  let buff := { trimming with touched := [] }.measure
  if buff.get last = ampersand then
    { trimming, marking := ((buff.touch last).touch last).put last 0, bg := true }
  else { trimming, marking := buff.touch last, bg := false }

def markBackground (trimming : LineBuffer) : Indexed :=
  markAt trimming (wrapped (toSize ((strlen trimming.memory : Int) - 1)))

def indexLine (fuel : Nat) (outside : Int → UInt8) (line : Line) : Option Indexed :=
  let memory := strncpy (trimFront line.bytes whitespace) buffSize
  (trimEndInto whitespace fuel { memory, outside, touched := [] }).map markBackground

def LineBuffer.Within (buff : LineBuffer) (text : List UInt8) : Prop :=
  ∀ index ∈ buff.touched, 0 ≤ index ∧ index ≤ text.length

/-- trim_end stays on the line as it was copied, interpret_line on what trim_end leaves. -/
structure Indexed.Within (indexed : Indexed) (line : Line) : Prop where
  trimming : indexed.trimming.Within (trimFront line.bytes whitespace)
  marking : indexed.marking.Within (cstring indexed.trimming.memory)

variable {characters front text after spare : List UInt8} {buff : LineBuffer}

@[simp] theorem touch_memory (index : Int) : (buff.touch index).memory = buff.memory := rfl

@[simp] theorem measure_memory : buff.measure.memory = buff.memory := rfl

@[simp] theorem put_touched (index : Int) (value : UInt8) :
    (buff.put index value).touched = buff.touched := by
  unfold LineBuffer.put
  split <;> rfl

theorem put_inside {place : Nat} (inside : place < buff.memory.length) (value : UInt8) :
    buff.put place value = { buff with memory := buff.memory.set place value } := by
  rw [LineBuffer.put, if_pos ⟨Int.natCast_nonneg place, Int.ofNat_lt.mpr inside⟩, Int.toNat_natCast]

theorem get_front {byte : UInt8} (memory : buff.memory = front ++ byte :: after) :
    buff.get front.length = byte := by
  have inside : front.length < buff.memory.length := by simp [memory]
  rw [LineBuffer.get, if_pos ⟨Int.natCast_nonneg _, Int.ofNat_lt.mpr inside⟩, memory]
  simp

theorem trimEndLoop_runs {blanks : List UInt8} {stop : UInt8} {fuel : Nat}
    (positive : 0 < front.length) (blank : ∀ byte ∈ blanks, charInSet byte characters = true)
    (stops : charInSet stop characters = false) (enough : blanks.length < fuel)
    (memory : buff.memory = front ++ (blanks ++ stop :: after)) :
    ∃ done, trimEndLoop characters fuel front.length buff = some done ∧
      done.memory = front ++ trimEndFrom characters (blanks ++ stop :: after) ∧
      done.outside = buff.outside ∧
      ∀ index ∈ done.touched, index ∈ buff.touched ∨
        (0 ≤ index ∧ index ≤ front.length + blanks.length) := by
  induction blanks generalizing front buff fuel with
  | nil =>
    obtain ⟨fuel, rfl⟩ : ∃ rounds, fuel = rounds + 1 := ⟨fuel - 1, by omega⟩
    have here : buff.get front.length = stop := get_front memory
    refine ⟨buff.touch front.length, ?_, ?_, rfl, ?_⟩
    · rw [trimEndLoop, if_pos (by omega), here, if_neg (by simp [stops])]
    · simpa [trimEndFrom, stops, LineBuffer.touch] using memory
    · intro index member
      rcases List.mem_append.mp member with before | now
      · exact .inl before
      · rw [List.mem_singleton.mp now]
        exact .inr ⟨by omega, by omega⟩
  | cons byte blanks ih =>
    obtain ⟨fuel, rfl⟩ : ∃ rounds, fuel = rounds + 1 := ⟨fuel - 1, by omega⟩
    have here : buff.get front.length = byte := get_front memory
    have isBlank : charInSet byte characters = true := blank byte (by simp)
    have inside : front.length < buff.memory.length := by simp [memory]
    have put : ((buff.touch front.length).touch front.length).put front.length 0 =
        { (buff.touch front.length).touch front.length with
          memory := (front ++ [0]) ++ (blanks ++ stop :: after) } := by
      rw [put_inside (by simpa using inside)]
      simp [memory]
    have others : ∀ other ∈ blanks, charInSet other characters = true :=
      fun other member => blank other (List.mem_cons_of_mem _ member)
    have fewer : blanks.length < fuel := by simpa using enough
    obtain ⟨done, run, left, around, places⟩ :=
      ih (by simp) others fewer (congrArg LineBuffer.memory put)
    refine ⟨done, ?_, ?_, ?_, ?_⟩
    · rw [trimEndLoop, if_pos (by omega), here, if_pos isBlank]
      simpa using run
    · simpa [trimEndFrom, isBlank] using left
    · rw [around, put]
      rfl
    · intro index member
      rcases places index member with before | now
      · simp only [put_touched, LineBuffer.touch, List.append_assoc, List.mem_append,
          List.mem_singleton, or_self] at before
        rcases before with earlier | rfl
        · exact .inl earlier
        · exact .inr ⟨by omega, by omega⟩
      · rw [List.length_append, List.length_singleton] at now
        exact .inr ⟨now.1, by rw [List.length_cons]; omega⟩

theorem trimEndLoop_idle {fuel : Nat} {i : Int} (low : i ≤ 0) :
    trimEndLoop characters (fuel + 1) i buff = some buff := by
  rw [trimEndLoop, if_neg (by omega)]

theorem toInt_toSize {length : Nat} (small : length < 2147483648) :
    toInt (toSize ((length : Int) - 1)) = length - 1 := by
  unfold toInt toSize
  rw [Int.bmod_def]
  split <;> omega

theorem strlen_memory (clean : 0 ∉ text) (memory : buff.memory = text ++ 0 :: spare) :
    strlen buff.memory = text.length := by
  rw [memory, strlen_append_nul text spare clean]

theorem measure_touched {index : Int} (clean : 0 ∉ text)
    (memory : buff.memory = text ++ 0 :: spare) (member : index ∈ buff.measure.touched) :
    index ∈ buff.touched ∨ (0 ≤ index ∧ index ≤ text.length) := by
  rw [LineBuffer.measure, strlen_memory clean memory] at member
  rcases List.mem_append.mp member with before | now
  · exact .inl before
  · obtain ⟨place, inside, rfl⟩ := List.mem_map.mp now
    rw [List.mem_range] at inside
    exact .inr ⟨Int.natCast_nonneg place, Int.ofNat_le.mpr (by omega)⟩

theorem trimEndInto_returns (clean : 0 ∉ text) (small : text.length < 2147483648)
    (memory : buff.memory = text ++ 0 :: spare) :
    ∃ done, trimEndInto whitespace 2 buff = some done ∧
      done.memory = trimEnd buff.memory whitespace ∧ done.outside = buff.outside ∧
      ∀ index ∈ done.touched, index ∈ buff.touched ∨ (0 ≤ index ∧ index ≤ text.length) := by
  have length := strlen_memory clean memory
  rw [trimEndInto, length, toInt_toSize small, trimEnd, length]
  by_cases short : text.length ≤ 1
  · rw [trimEndLoop_idle (by omega), if_neg (by omega)]
    exact ⟨_, rfl, rfl, rfl, fun index member => measure_touched clean memory member⟩
  · obtain ⟨front, last, rfl⟩ := (List.eq_nil_or_concat text).resolve_left (by
      rintro rfl
      simp at short)
    rw [List.concat_eq_append] at *
    rw [List.length_append, List.length_singleton] at short
    have whole : buff.memory = front ++ last :: 0 :: spare := by simpa using memory
    obtain ⟨blanks, stop, after, shape, blank, stops, few⟩ : ∃ blanks stop after,
        last :: 0 :: spare = blanks ++ stop :: after ∧
          (∀ byte ∈ blanks, charInSet byte whitespace = true) ∧
          charInSet stop whitespace = false ∧ blanks.length ≤ 1 := by
      cases isBlank : charInSet last whitespace with
      | true => exact ⟨[last], 0, spare, rfl, by simpa using isBlank, nul_not_whitespace, by simp⟩
      | false => exact ⟨[], last, 0 :: spare, rfl, by simp, isBlank, by simp⟩
    have start : ((front ++ [last]).length : Int) - 1 = front.length := by simp
    have cut : (front ++ [last]).length - 1 = front.length := by simp
    have positive : 0 < front.length := by omega
    have fewer : blanks.length < 2 := by omega
    rw [shape] at whole
    have measured : buff.measure.memory = front ++ (blanks ++ stop :: after) := whole
    obtain ⟨done, run, left, around, places⟩ :=
      trimEndLoop_runs positive blank stops fewer measured
    refine ⟨done, by rw [start, run], ?_, around, ?_⟩
    · rw [cut, if_pos positive, whole, List.take_left, List.drop_left, left]
    · intro index member
      rcases places index member with before | now
      · exact measure_touched clean memory before
      · refine .inr ⟨now.1, ?_⟩
        rw [List.length_append, List.length_singleton]
        omega

theorem wrapped_toSize {length : Nat} (small : length < 9223372036854775808) :
    wrapped (toSize ((length : Int) - 1)) = length - 1 := by
  unfold wrapped toSize
  rw [Int.bmod_def]
  split <;> omega

theorem markBackground_at (clean : 0 ∉ text) (small : text.length < 9223372036854775808)
    (memory : buff.memory = text ++ 0 :: spare) :
    markBackground buff = markAt buff ((text.length : Int) - 1) := by
  rw [markBackground, strlen_memory clean memory, wrapped_toSize small]

theorem mem_markAt (index last : Int) :
    index ∈ (markAt buff last).marking.touched ↔
      index ∈ ({ buff with touched := [] } : LineBuffer).measure.touched ∨ index = last := by
  unfold markAt
  dsimp only
  split <;> simp [LineBuffer.touch]

theorem markAt_trimming (last : Int) : (markAt buff last).trimming = buff := by
  unfold markAt
  dsimp only
  split <;> rfl

theorem markBackground_within (clean : 0 ∉ text) (small : text.length < 9223372036854775808)
    (memory : buff.memory = text ++ 0 :: spare) :
    (markBackground buff).marking.Within text ↔ text ≠ [] := by
  rw [markBackground_at clean small memory]
  constructor
  · rintro within rfl
    have below := within _ ((mem_markAt _ _).mpr (.inr rfl))
    simp at below
  · intro filled index member
    have positive : 0 < text.length := List.length_pos_iff.mpr filled
    have start : ({ buff with touched := [] } : LineBuffer).memory = text ++ 0 :: spare := memory
    rcases (mem_markAt index _).mp member with measured | rfl
    · exact (measure_touched clean start measured).resolve_left (by simp)
    · omega

theorem markBackground_eq (clean : 0 ∉ text) (small : text.length < 9223372036854775808)
    (memory : buff.memory = text ++ 0 :: spare) :
    ((markBackground buff).marking.memory, (markBackground buff).bg) =
      takeBackground (buff.outside (-1)) buff.memory := by
  rw [markBackground_at clean small memory, takeBackground, strlen_memory clean memory]
  rcases List.eq_nil_or_concat text with rfl | ⟨init, byte, rfl⟩
  · have below : ({ buff with touched := [] } : LineBuffer).measure.get (-1) = buff.outside (-1) :=
      if_neg (by omega)
    simp only [markAt, List.length_nil, Int.ofNat_zero, Int.zero_sub, below, if_true]
    split <;> rfl
  · rw [List.concat_eq_append] at *
    have whole : buff.memory = init ++ byte :: 0 :: spare := by simpa using memory
    have last : ((init ++ [byte]).length : Int) - 1 = init.length := by simp
    have here : ({ buff with touched := [] } : LineBuffer).measure.get init.length = byte :=
      get_front whole
    have value : buff.memory.getD init.length 0 = byte := by simp [whole]
    rw [markAt, last]
    simp only [here, value, List.length_append, List.length_singleton, Nat.add_sub_cancel]
    have filled : ¬ init.length + 1 = 0 := by omega
    rw [if_neg filled, if_neg filled]
    split
    next =>
      rw [put_inside (by simp [whole])]
      rfl
    next => rfl

theorem trimEndLoop_more {fuel enough : Nat} {i : Int} {done : LineBuffer}
    (run : trimEndLoop characters fuel i buff = some done) (more : fuel ≤ enough) :
    trimEndLoop characters enough i buff = some done := by
  induction fuel generalizing enough i buff with
  | zero => cases run
  | succ fuel ih =>
    obtain ⟨enough, rfl⟩ : ∃ rounds, enough = rounds + 1 := ⟨enough - 1, by omega⟩
    rw [trimEndLoop] at run ⊢
    split at run
    next positive =>
      rw [if_pos positive]
      split at run
      next blank =>
        rw [if_pos blank]
        exact ih run (by omega)
      next plain => rwa [if_neg plain]
    next low => rwa [if_neg low]

theorem trimmed_length_le (text : List UInt8) : (trimmed text).length ≤ text.length := by
  unfold trimmed
  split
  next =>
    split
    · simp
    · exact Nat.le_refl _
  next => exact Nat.le_refl _

theorem trimmed_small (line : Line) :
    (trimmed (trimFront line.bytes whitespace)).length < 9223372036854775808 :=
  Nat.lt_of_le_of_lt (trimmed_length_le _) (Nat.lt_trans (trimFront_fits line) (by decide))

theorem copy_length (line : Line) :
    (strncpy (trimFront line.bytes whitespace) buffSize).length = buffSize := by
  have fits := trimFront_fits line
  rw [strncpy, List.length_append, List.length_take, List.length_replicate]
  omega

theorem indexLine_returns (outside : Int → UInt8) (line : Line) :
    ∃ trimming, indexLine 2 outside line = some (markBackground trimming) ∧
      trimming.memory = trimLine line ∧ trimming.outside = outside ∧
      trimming.Within (trimFront line.bytes whitespace) := by
  have fits := trimFront_fits line
  obtain ⟨spare, copied⟩ : ∃ spare, strncpy (trimFront line.bytes whitespace) buffSize =
      trimFront line.bytes whitespace ++ 0 :: spare := by
    obtain ⟨room, free⟩ : ∃ room,
        buffSize - (trimFront line.bytes whitespace).length = room + 1 :=
      ⟨buffSize - (trimFront line.bytes whitespace).length - 1, by omega⟩
    rw [strncpy, List.take_of_length_le (by omega), free, List.replicate_succ]
    exact ⟨_, rfl⟩
  obtain ⟨done, run, left, around, places⟩ := trimEndInto_returns (trimFront_clean line)
    (Nat.lt_trans fits (by decide))
    (show (LineBuffer.mk (strncpy (trimFront line.bytes whitespace) buffSize) outside []).memory = _
      from copied)
  refine ⟨done, ?_, left, around, ?_⟩
  · rw [indexLine, run, Option.map_some]
  · exact fun index member => (places index member).resolve_left (by simp)

theorem indexLine_takes (outside : Int → UInt8) (line : Line) :
    ∃ indexed, indexLine 2 outside line = some indexed ∧
      (indexed.marking.memory, indexed.bg) = takeBackground (outside (-1)) (trimLine line) := by
  obtain ⟨trimming, run, left, around, -⟩ := indexLine_returns outside line
  obtain ⟨rest, memory⟩ := trimLine_eq line
  refine ⟨_, run, ?_⟩
  rw [← left, ← around]
  exact markBackground_eq (trimmed_clean _ (trimFront_clean line)) (trimmed_small line)
    (left.trans memory)

theorem indexLine_more {fuel enough : Nat} {outside : Int → UInt8} {line : Line}
    {indexed : Indexed} (run : indexLine fuel outside line = some indexed) (more : fuel ≤ enough) :
    indexLine enough outside line = some indexed := by
  obtain ⟨trimming, trim, rfl⟩ := Option.map_eq_some_iff.mp run
  exact Option.map_eq_some_iff.mpr ⟨trimming, trimEndLoop_more trim more, rfl⟩

theorem trimmed_eq_nil {text : List UInt8} : trimmed text = [] ↔ text = [] := by
  rcases List.eq_nil_or_concat text with rfl | ⟨init, last, rfl⟩
  · simp [trimmed]
  · rw [List.concat_eq_append, trimmed, List.getLast?_concat]
    dsimp only
    split
    next long =>
      rw [List.length_append, List.length_singleton] at long
      simp [List.length_pos_iff.mp (show 0 < init.length by omega)]
    next => simp

theorem indexLine_within {fuel : Nat} {outside : Int → UInt8} {line : Line} {indexed : Indexed}
    (returned : indexLine fuel outside line = some indexed) :
    indexed.Within line ↔ trimmed (trimFront line.bytes whitespace) ≠ [] := by
  obtain ⟨trimming, run, left, -, trims⟩ := indexLine_returns outside line
  have same := indexLine_more returned (Nat.le_max_left fuel 2)
  rw [indexLine_more run (Nat.le_max_right fuel 2), Option.some.injEq] at same
  subst same
  obtain ⟨rest, memory⟩ := trimLine_eq line
  have clean := trimmed_clean _ (trimFront_clean line)
  have marks := markBackground_within clean (trimmed_small line) (left.trans memory)
  have trimmer : (markBackground trimming).trimming = trimming := by
    rw [markBackground, markAt_trimming]
  have text : cstring (markBackground trimming).trimming.memory =
      trimmed (trimFront line.bytes whitespace) := by
    rw [trimmer, left, memory, cstring_append_nul _ _ clean]
  constructor
  · intro within
    have inside := within.marking
    rw [text] at inside
    exact marks.mp inside
  · intro filled
    constructor
    · rw [trimmer]
      exact trims
    · rw [text]
      exact marks.mpr filled

/-- trim_end ends, and it and interpret_line keep inside the line they look at, exactly when the
line is not blank: of a blank line interpret_line reads the byte in front of its buffer. -/
theorem indexLine_within_iff (outside : Int → UInt8) (line : Line) :
    (∃ fuel indexed, indexLine fuel outside line = some indexed ∧ indexed.Within line) ↔
      ∃ byte ∈ line.bytes, charInSet byte whitespace = false := by
  have filled : trimmed (trimFront line.bytes whitespace) ≠ [] ↔
      ∃ byte ∈ line.bytes, charInSet byte whitespace = false := by
    rw [ne_eq, trimmed_eq_nil, trimFront, List.dropWhile_eq_nil_iff]
    simp only [not_forall, exists_prop, Bool.not_eq_true]
  rw [← filled]
  constructor
  · rintro ⟨fuel, indexed, returned, within⟩
    exact (indexLine_within returned).mp within
  · intro some
    obtain ⟨trimming, returned, -⟩ := indexLine_returns outside line
    exact ⟨2, _, returned, (indexLine_within returned).mpr some⟩

theorem indexLine_outside :
    ¬ ∀ (outside : Int → UInt8) (line : Line),
      ∃ fuel indexed, indexLine fuel outside line = some indexed ∧ indexed.Within line := by
  intro claim
  have fits : ([] : List UInt8).length < buffSize := by decide
  obtain ⟨fuel, indexed, returned, within⟩ := claim (fun _ => 0) ⟨[], by simp, fits⟩
  exact (indexLine_within returned).mp within rfl

end Akiso.Shell
