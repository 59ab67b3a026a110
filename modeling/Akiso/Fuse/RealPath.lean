import Akiso.Shared.Escape
import Akiso.Fuse.Crypt

set_option autoImplicit false

namespace Akiso.Fuse

open CString Escape

def pathMax : Nat := 4096

-- The tokens of strtok_r with the delimiter "/".
def components (path : List UInt8) : List (List UInt8) :=
  (path.splitOnP (· = slash)).filter (· ≠ [])

/-- An array of bytes with whatever it held before; extent is one past the highest store. -/
structure OutBuff where
  bytes : Nat → UInt8
  extent : Nat

namespace OutBuff

def store (buff : OutBuff) (start : Nat) (data : List UInt8) : OutBuff :=
  { bytes := fun index =>
      if start ≤ index ∧ index < start + data.length then data.getD (index - start) 0
      else buff.bytes index
    extent := max buff.extent (start + data.length) }

def text (buff : OutBuff) : List UInt8 :=
  cstring ((List.range buff.extent).map buff.bytes)

@[simp] theorem store_extent (buff : OutBuff) (start : Nat) (data : List UInt8) :
    (buff.store start data).extent = max buff.extent (start + data.length) := rfl

end OutBuff

def special (token : List UInt8) : Prop := token = [dot] ∨ token = [dot, dot]

instance (token : List UInt8) : Decidable (special token) :=
  inferInstanceAs (Decidable (token = [dot] ∨ token = [dot, dot]))

section

variable (cipher : List UInt8 → List UInt8)

def storedName (name : List UInt8) : List UInt8 × Nat :=
  (strnReplace (cipher name ++ [0]) (cipher name).length slash caret, (cipher name).length)

def appendWith (state : OutBuff × Nat) (token : List UInt8) : OutBuff × Nat :=
  let (buff, currentLen) := state
  let buff := buff.store currentLen [slash]
  if special token then
    (buff.store (currentLen + 1) (token ++ [0]), currentLen + 1 + token.length)
  else
    let (stored, length) := storedName cipher token
    (buff.store (currentLen + 1) stored, currentLen + 1 + length)

-- get_real_path for any cipher and root: out_buff and the length returned, with arrays that have
-- room for all that is stored.
def getRealPathWith (root path : List UInt8) (outBuff : Nat → UInt8) : OutBuff × Nat :=
  let buff := OutBuff.store { bytes := outBuff, extent := 0 } 0 [0]
  if path.head? ≠ some slash then (buff, 0)
  else
    let buff := buff.store 0 (root ++ [0])
    let (buff, currentLen) := (components path).foldl (appendWith cipher) (buff, root.length)
    let buff := buff.store (currentLen + 1) [0]
    (buff, buff.text.length)

-- get_real_path with its two arrays of PATH_MAX bytes: none when strcpy runs past the end of
-- buffer, or a store past the end of out_buff.
def getRealPathBounded (root path : List UInt8) (outBuff : Nat → UInt8) :
    Option (OutBuff × Nat) :=
  if path.head? = some slash ∧ pathMax < path.length + 1 then none
  else
    let (buff, length) := getRealPathWith cipher root path outBuff
    if buff.extent ≤ pathMax then some (buff, length) else none

def componentImage (token : List UInt8) : List UInt8 :=
  if special token then token
  else (cipher token).map fun byte => if byte = slash then caret else byte

def pathImage (root : List UInt8) (tokens : List (List UInt8)) : List UInt8 :=
  root ++ tokens.flatMap fun token => slash :: componentImage cipher token

end

namespace OutBuff

structure Holds (buff : OutBuff) (string : List UInt8) : Prop where
  clean : 0 ∉ string
  inside : string.length < buff.extent
  stored : ∀ index ≤ string.length, (string ++ [0])[index]? = some (buff.bytes index)

variable {buff : OutBuff} {string : List UInt8}

theorem Holds.text (holds : Holds buff string) : buff.text = string := by
  have inside := holds.inside
  have first : (List.range (string.length + 1)).map buff.bytes = string ++ [0] := by
    apply List.ext_getElem?
    intro index
    by_cases bound : index ≤ string.length
    · have within : index < string.length + 1 := by omega
      rw [holds.stored index bound]
      simp [within]
    · have beyond : string.length + 1 ≤ index := by omega
      rw [List.getElem?_eq_none (by simpa using beyond),
        List.getElem?_eq_none (by simpa using beyond)]
  have split : List.range buff.extent = List.range (string.length + 1) ++
      (List.range (buff.extent - (string.length + 1))).map (string.length + 1 + ·) := by
    rw [← List.range_add]
    congr 1
    omega
  rw [OutBuff.text, split, List.map_append, first, List.append_assoc, List.singleton_append]
  exact cstring_append_nul string _ holds.clean

theorem store_store (buff : OutBuff) (start : Nat) (first second : List UInt8) :
    (buff.store start first).store (start + first.length) second =
      buff.store start (first ++ second) := by
  have extent :
      max (max buff.extent (start + first.length)) (start + first.length + second.length) =
        max buff.extent (start + (first ++ second).length) := by
    rw [List.length_append]
    omega
  simp only [store, extent, OutBuff.mk.injEq, and_true]
  funext index
  simp only [List.length_append, List.getD_eq_getElem?_getD]
  by_cases inFirst : start ≤ index ∧ index < start + first.length
  · have before : ¬ (start + first.length ≤ index ∧
        index < start + first.length + second.length) := by omega
    have within : start ≤ index ∧ index < start + (first.length + second.length) := by omega
    rw [if_neg before, if_pos inFirst, if_pos within,
      List.getElem?_append_left (by omega)]
  · by_cases inSecond : start + first.length ≤ index ∧ index < start + first.length + second.length
    · have within : start ≤ index ∧ index < start + (first.length + second.length) := by omega
      have shifted : index - start - first.length = index - (start + first.length) := by omega
      rw [if_pos inSecond, if_pos within, List.getElem?_append_right (by omega), shifted]
    · have outside : ¬ (start ≤ index ∧ index < start + (first.length + second.length)) := by omega
      rw [if_neg inSecond, if_neg inFirst, if_neg outside]

theorem Holds.append (holds : Holds buff string) {more : List UInt8} (clean : 0 ∉ more) :
    Holds (buff.store string.length (more ++ [0])) (string ++ more) where
  clean := by simp [holds.clean, clean]
  inside := by
    simp only [store, List.length_append, List.length_singleton]
    omega
  stored index bound := by
    simp only [List.length_append] at bound
    simp only [store, List.length_append, List.length_singleton, List.append_assoc]
    split
    next after =>
      have within : index - string.length < (more ++ [0]).length := by
        simp only [List.length_append, List.length_singleton]
        omega
      rw [List.getElem?_append_right after.1, List.getD_eq_getElem?_getD,
        List.getElem?_eq_getElem within, Option.getD_some]
    next before =>
      have earlier : index < string.length := by omega
      rw [← holds.stored index (by omega), List.getElem?_append_left earlier,
        List.getElem?_append_left earlier]

theorem Holds.beyond (holds : Holds buff string) (data : List UInt8) :
    Holds (buff.store (string.length + 1) data) string where
  clean := holds.clean
  inside := Nat.lt_of_lt_of_le holds.inside (Nat.le_max_left _ _)
  stored index bound := by
    have outside : ¬ (string.length + 1 ≤ index ∧ index < string.length + 1 + data.length) := by
      omega
    simp only [store, outside, if_false]
    exact holds.stored index bound

end OutBuff

theorem mem_components {path token : List UInt8} (member : token ∈ components path) :
    token ≠ [] ∧ slash ∉ token ∧ token ⊆ path := by
  obtain ⟨piece, filled⟩ := List.mem_filter.mp member
  have inside : ∀ byte ∈ token, byte ∈ path ∧ byte ≠ slash := by
    intro byte found
    have kept : byte ∈ (path.splitOnP (· = slash)).flatten := List.mem_flatten_of_mem piece found
    rw [flatten_splitOnP] at kept
    simpa using List.mem_filter.mp kept
  refine ⟨by simpa using filled, fun found => (inside slash found).2 rfl, ?_⟩
  exact fun byte found => (inside byte found).1

section

variable {cipher : List UInt8 → List UInt8} {buff : OutBuff} {string : List UInt8}

theorem storedName_eq {name : List UInt8} (clean : 0 ∉ cipher name) :
    storedName cipher name =
      (((cipher name).map fun byte => if byte = slash then caret else byte) ++ [0],
        (cipher name).length) := by
  rw [storedName, strnReplace_all slash caret _ [] clean]

theorem componentImage_clean {token : List UInt8} (clean : 0 ∉ token)
    (encrypted : 0 ∉ cipher token) : 0 ∉ componentImage cipher token := by
  unfold componentImage
  split
  next => exact clean
  next =>
    intro member
    obtain ⟨byte, found, same⟩ := List.mem_map.mp member
    split at same
    next => exact absurd same (by decide)
    next => exact encrypted (same ▸ found)

theorem appendWith_eq {token : List UInt8} (clean : 0 ∉ cipher token) (currentLen : Nat) :
    appendWith cipher (buff, currentLen) token =
      (buff.store currentLen (slash :: componentImage cipher token ++ [0]),
        currentLen + (slash :: componentImage cipher token).length) := by
  have joined : ∀ more, (buff.store currentLen [slash]).store (currentLen + 1) (more ++ [0]) =
      buff.store currentLen (slash :: more ++ [0]) := fun more =>
    buff.store_store currentLen [slash] (more ++ [0])
  unfold appendWith componentImage
  dsimp only
  split
  next =>
    simp only [joined, List.length_cons, Prod.mk.injEq, true_and]
    omega
  next =>
    simp only [storedName_eq clean, joined, List.length_cons, List.length_map, Prod.mk.injEq,
      true_and]
    omega

theorem foldl_appendWith (tokens : List (List UInt8))
    (clean : ∀ token ∈ tokens, 0 ∉ token ∧ 0 ∉ cipher token) (holds : buff.Holds string) :
    ∃ next, next.Holds (pathImage cipher string tokens) ∧
      tokens.foldl (appendWith cipher) (buff, string.length) =
        (next, (pathImage cipher string tokens).length) := by
  unfold pathImage
  induction tokens generalizing buff string with
  | nil => exact ⟨buff, by simpa using holds, by simp⟩
  | cons token rest ih =>
    rw [List.forall_mem_cons] at clean
    have plain : 0 ∉ slash :: componentImage cipher token := by
      simp [componentImage_clean clean.1.1 clean.1.2, slash]
    obtain ⟨next, final, folded⟩ := ih clean.2 (holds.append plain)
    refine ⟨next, by simpa using final, ?_⟩
    rw [List.foldl_cons, appendWith_eq clean.1.2, ← List.length_append, folded]
    simp

theorem getRealPathWith_eq {root path : List UInt8} (rootClean : 0 ∉ root)
    (absolute : path.head? = some slash) (clean : 0 ∉ path)
    (encrypted : ∀ token ∈ components path, 0 ∉ cipher token) (outBuff : Nat → UInt8) :
    (getRealPathWith cipher root path outBuff).1.Holds (pathImage cipher root (components path)) ∧
      (getRealPathWith cipher root path outBuff).2 =
        (pathImage cipher root (components path)).length := by
  have empty : (OutBuff.store { bytes := outBuff, extent := 0 } 0 [0]).Holds [] := by
    refine ⟨by simp, by simp [OutBuff.store], ?_⟩
    intro index bound
    simp only [List.length_nil, Nat.le_zero] at bound
    simp [bound, OutBuff.store]
  have opened := empty.append rootClean
  obtain ⟨next, final, folded⟩ := foldl_appendWith (components path)
    (fun token member =>
      ⟨fun found => clean ((mem_components member).2.2 found), encrypted token member⟩) opened
  unfold getRealPathWith
  rw [if_neg (by simp [absolute])]
  simp only [List.nil_append, List.length_nil] at opened folded final
  simp only [folded]
  exact ⟨final.beyond [0], congrArg List.length (final.beyond [0]).text⟩

theorem strnReplace_length (data : List UInt8) (n : Nat) (original replacement : UInt8) :
    (strnReplace data n original replacement).length = data.length := by
  induction data generalizing n with
  | nil => rfl
  | cons byte rest ih =>
    unfold strnReplace
    split
    next => rfl
    next =>
      cases n with
      | zero => rfl
      | succ n => rw [List.length_cons, ih, List.length_cons]

theorem pathImage_cons_length (root token : List UInt8) (rest : List (List UInt8)) :
    (pathImage cipher root (token :: rest)).length =
      1 + (componentImage cipher token).length + (pathImage cipher root rest).length := by
  simp only [pathImage, List.flatMap_cons, List.length_append, List.length_cons]
  omega

variable {currentLen : Nat}

-- Up to the NUL behind current_len the array is filled, and no store goes further.
theorem appendWith_extent (token : List UInt8) (filled : buff.extent = currentLen + 1) :
    (appendWith cipher (buff, currentLen) token).2 =
        currentLen + 1 + (componentImage cipher token).length ∧
      (appendWith cipher (buff, currentLen) token).1.extent =
        currentLen + 1 + (componentImage cipher token).length + 1 := by
  unfold appendWith componentImage
  dsimp only
  split
  next =>
    simp only [OutBuff.store_extent, List.length_append, List.length_singleton, true_and]
    omega
  next =>
    simp only [storedName, strnReplace_length, OutBuff.store_extent, List.length_append,
      List.length_singleton, List.length_map, true_and]
    omega

theorem foldl_extent (tokens : List (List UInt8)) (filled : buff.extent = currentLen + 1) :
    (tokens.foldl (appendWith cipher) (buff, currentLen)).2 =
        currentLen + (pathImage cipher [] tokens).length ∧
      (tokens.foldl (appendWith cipher) (buff, currentLen)).1.extent =
        currentLen + (pathImage cipher [] tokens).length + 1 := by
  induction tokens generalizing buff currentLen with
  | nil => exact ⟨rfl, filled⟩
  | cons token rest ih =>
    obtain ⟨next, extent⟩ := appendWith_extent token filled
    rw [List.foldl_cons, pathImage_cons_length]
    generalize appendWith cipher (buff, currentLen) token = state at next extent ⊢
    obtain ⟨after, reached⟩ := state
    dsimp only at next extent
    rw [← next] at extent
    obtain ⟨final, last⟩ := ih extent
    omega

-- The last store of get_real_path is the NUL behind the one that ends the path.
theorem getRealPathWith_extent {root path : List UInt8} (absolute : path.head? = some slash)
    (outBuff : Nat → UInt8) : (getRealPathWith cipher root path outBuff).1.extent =
      (pathImage cipher root (components path)).length + 2 := by
  have filled : ((OutBuff.store { bytes := outBuff, extent := 0 } 0 [0]).store 0
      (root ++ [0])).extent = root.length + 1 := by
    simp
  obtain ⟨reached, extent⟩ := foldl_extent (components path) filled
  have total : (pathImage cipher root (components path)).length =
      root.length + (pathImage cipher [] (components path)).length := by
    simp [pathImage]
  unfold getRealPathWith
  rw [if_neg (by simp [absolute])]
  dsimp only
  rw [OutBuff.store_extent, reached, extent, List.length_singleton, total]
  omega

end

end Akiso.Fuse
