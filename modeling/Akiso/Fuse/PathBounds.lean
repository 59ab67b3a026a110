import Akiso.Fuse.PathImage

set_option autoImplicit false

namespace Akiso.Fuse

open CString Escape

-- Base64 of whole blocks of 16 bytes, one more than the name fills.
def encodedLength (length : Nat) : Nat := 4 * ((16 * (length / 16 + 1) + 2) / 3)

def componentLength (token : List UInt8) : Nat :=
  if special token then token.length else encodedLength token.length

def imageLength : List (List UInt8) → Nat
  | [] => 0
  | token :: rest => 1 + componentLength token + imageLength rest

def OutBuff.Within (buff : OutBuff) (size : Nat) : Prop := buff.extent ≤ size

section

variable {cipher : List UInt8 → List UInt8}

theorem componentImage_stored {token : List UInt8}
    (length : (cipher token).length = encodedLength token.length) :
    (componentImage cipher token).length = componentLength token := by
  unfold componentImage componentLength
  split
  next => rfl
  next => rw [List.length_map, length]

theorem pathImage_length {tokens : List (List UInt8)} (root : List UInt8)
    (lengths : ∀ token ∈ tokens, (cipher token).length = encodedLength token.length) :
    (pathImage cipher root tokens).length = root.length + imageLength tokens := by
  induction tokens with
  | nil => simp [pathImage, imageLength]
  | cons token rest ih =>
    rw [List.forall_mem_cons] at lengths
    rw [pathImage_cons_length, ih lengths.2, componentImage_stored lengths.1, imageLength]
    omega

/-- All stores into out_buff stay below PATH_MAX exactly when the root, the encoded components with
a slash each, and two NULs fit into it. -/
theorem getRealPath_within_iff {root path : List UInt8} (absolute : path.head? = some slash)
    (lengths : ∀ name, name ≠ [] → (cipher name).length = encodedLength name.length)
    (outBuff : Nat → UInt8) :
    (getRealPathWith cipher root path outBuff).1.Within pathMax ↔
      root.length + imageLength (components path) + 2 ≤
        pathMax := by
  have encoded : ∀ token ∈ components path, (cipher token).length = encodedLength token.length :=
    fun token member => lengths token (mem_components member).1
  rw [OutBuff.Within, getRealPathWith_extent absolute outBuff, pathImage_length root encoded]

end

theorem components_led (tokens : List (List UInt8))
    (regular : ∀ token ∈ tokens, token ≠ [] ∧ slash ∉ token) :
    components (tokens.flatMap (slash :: ·)) = tokens := by
  have pieces : (tokens.flatMap (slash :: ·)).splitOnP (· = slash) = [] :: tokens := by
    apply splitOnP_led _ slash (decide_eq_true rfl)
    intro token member byte found
    have apart : byte ≠ slash := fun same => (regular token member).2 (same ▸ found)
    exact decide_eq_false apart
  rw [components, pieces, List.filter_cons_of_neg (by simp), List.filter_eq_self]
  intro token member
  exact decide_eq_true (regular token member).1

theorem Mount.cipher_length (mount : Mount) (name : List UInt8) :
    (mount.cipher name).length = encodedLength name.length := by
  rw [Mount.cipher, mount.codec.length, mount.aes.length, encodedLength]

def rootMount : Mount :=
  { aes := paddingAes, codec := standardCodec, root := [slash, 116], rootClean := by decide }

theorem getRealPath_within_short :
    (getRealPath rootMount [slash, 97, slash, 98] fun _ => 255).1.Within pathMax := by
  rw [getRealPath_with]
  apply (getRealPath_within_iff rfl (fun name _ => rootMount.cipher_length name) _).mpr
  decide

theorem imageLength_replicate (count : Nat) (token : List UInt8) :
    imageLength (List.replicate count token) = count * (1 + componentLength token) := by
  induction count with
  | zero => simp [imageLength]
  | succ count ih =>
    rw [List.replicate_succ, imageLength, ih, Nat.add_one_mul]
    omega

def deepPath : List UInt8 := (List.replicate 164 [97]).flatMap (slash :: ·)

-- The path has 328 bytes and its image 4102.
theorem getRealPath_within_fails :
    ¬ ∀ (cipher : List UInt8 → List UInt8) (root path : List UInt8) (outBuff : Nat → UInt8),
      (∀ name, name ≠ [] → (cipher name).length = encodedLength name.length) →
      path.head? = some slash → 0 ∉ path → path.length < pathMax → 0 ∉ root →
      root.length < pathMax → (getRealPathWith cipher root path outBuff).1.Within pathMax := by
  intro within
  have regular : ∀ token ∈ List.replicate 164 [(97 : UInt8)], token ≠ [] ∧ slash ∉ token := by
    intro token member
    rw [List.eq_of_mem_replicate member]
    decide
  have tokens : components deepPath = List.replicate 164 [97] := components_led _ regular
  have clean : 0 ∉ deepPath := by
    intro member
    obtain ⟨token, inside, found⟩ := List.mem_flatMap.mp member
    rw [List.eq_of_mem_replicate inside] at found
    exact absurd found (by decide)
  have short : deepPath.length < pathMax := by
    rw [deepPath, List.length_flatMap, List.map_replicate]
    exact Nat.lt_of_le_of_lt (Nat.le_of_eq List.sum_replicate_nat) (by decide)
  have stays := within rootMount.cipher rootMount.root deepPath (fun _ => 0)
    (fun name _ => rootMount.cipher_length name) rfl clean short (by decide) (by decide)
  have lengths : ∀ token ∈ components deepPath,
      (rootMount.cipher token).length = encodedLength token.length :=
    fun token _ => rootMount.cipher_length token
  have total : imageLength (components deepPath) = 164 * 25 := by
    rw [tokens, imageLength_replicate]
    rfl
  rw [OutBuff.Within, getRealPathWith_extent rfl, pathImage_length _ lengths, total] at stays
  exact absurd stays (by decide)

end Akiso.Fuse
