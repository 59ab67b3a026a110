import Akiso.Fuse.Path

set_option autoImplicit false

namespace Akiso.Fuse

open CString Escape

structure NameCipher where
  encode : List UInt8 → List UInt8
  long : ∀ name, name ≠ [] → 24 ≤ (encode name).length
  alphabet : ∀ name, name ≠ [] → ∀ byte ∈ encode name, byte ∈ Base64.alphabet
  injective : ∀ first second, first ≠ [] → second ≠ [] → encode first = encode second →
    first = second

def Mount.nameCipher (mount : Mount) : NameCipher where
  encode := mount.cipher
  long := by
    intro name _
    rw [Mount.cipher, mount.codec.length, mount.aes.length]
    omega
  alphabet := fun name _ => mount.codec.alphabet _
  injective := by
    intro first second _ _ same
    apply encryptedName_injective mount.aes mount.codec
    unfold encryptedName
    exact congrArg _ same

section

variable (cipher : NameCipher) {root path : List UInt8}

theorem NameCipher.clean {name : List UInt8} (filled : name ≠ []) :
    0 ∉ cipher.encode name ∧ caret ∉ cipher.encode name := by
  constructor
  · exact fun member => (alphabet_clean 0 (cipher.alphabet name filled 0 member)).1 rfl
  · exact fun member => (alphabet_clean caret (cipher.alphabet name filled caret member)).2.1 rfl

theorem special_short {token : List UInt8} (plain : special token) : token.length ≤ 2 := by
  rcases plain with rfl | rfl <;> decide

theorem componentImage_length {token : List UInt8} (ordinary : ¬ special token) :
    (componentImage cipher.encode token).length = (cipher.encode token).length := by
  rw [componentImage, if_neg ordinary, List.length_map]

-- A dot component is shorter than any encrypted name.
theorem componentImage_inj {first second : List UInt8} (filled : first ≠ []) (other : second ≠ [])
    (same : componentImage cipher.encode first = componentImage cipher.encode second) :
    first = second := by
  by_cases plain : special first
  next =>
    by_cases otherPlain : special second
    next => simpa [componentImage, plain, otherPlain] using same
    next =>
      have length := componentImage_length cipher otherPlain
      have long := cipher.long second other
      have short := special_short plain
      rw [← same, componentImage, if_pos plain] at length
      omega
  next =>
    by_cases otherPlain : special second
    next =>
      have length := componentImage_length cipher plain
      have long := cipher.long first filled
      have short := special_short otherPlain
      rw [same, componentImage, if_pos otherPlain] at length
      omega
    next =>
      rw [componentImage, componentImage, if_neg plain, if_neg otherPlain] at same
      apply cipher.injective first second filled other
      rw [← replaced_restored (cipher.clean filled).2, same,
        replaced_restored (cipher.clean other).2]

theorem componentImage_single {token : List UInt8} (single : slash ∉ token) :
    slash ∉ componentImage cipher.encode token := by
  unfold componentImage
  split
  next => exact single
  next =>
    intro member
    obtain ⟨byte, -, same⟩ := List.mem_map.mp member
    split at same
    next => exact absurd same (by decide)
    next kept => exact kept same

theorem components_inj {first second : List (List UInt8)}
    (filled : ∀ token ∈ first, token ≠ []) (other : ∀ token ∈ second, token ≠ [])
    (same : first.map (componentImage cipher.encode) =
      second.map (componentImage cipher.encode)) : first = second := by
  induction first generalizing second with
  | nil => exact (List.map_eq_nil_iff.mp same.symm).symm
  | cons token rest ih =>
    cases second with
    | nil => simp at same
    | cons head tail =>
      rw [List.forall_mem_cons] at filled other
      rw [List.map_cons, List.map_cons, List.cons.injEq] at same
      rw [componentImage_inj cipher filled.1 other.1 same.1, ih filled.2 other.2 same.2]

theorem pathImage_pieces {tokens : List (List UInt8)} (single : ∀ token ∈ tokens, slash ∉ token) :
    (tokens.flatMap fun token => slash :: componentImage cipher.encode token).splitOnP (· = slash) =
      [] :: tokens.map (componentImage cipher.encode) := by
  have led : (tokens.flatMap fun token => slash :: componentImage cipher.encode token) =
      (tokens.map (componentImage cipher.encode)).flatMap (slash :: ·) := by
    rw [List.flatMap_map]
  rw [led]
  apply splitOnP_led _ slash (decide_eq_true rfl)
  intro piece member byte found
  obtain ⟨token, inside, rfl⟩ := List.mem_map.mp member
  have apart : byte ≠ slash := fun same =>
    componentImage_single cipher (single token inside) (same ▸ found)
  exact decide_eq_false apart

theorem pathImage_inj {first second : List (List UInt8)}
    (regular : ∀ token ∈ first, token ≠ [] ∧ slash ∉ token)
    (other : ∀ token ∈ second, token ≠ [] ∧ slash ∉ token)
    (same : pathImage cipher.encode root first = pathImage cipher.encode root second) :
    first = second := by
  have tails := List.append_cancel_left same
  have pieces := congrArg (List.splitOnP (· = slash)) tails
  rw [pathImage_pieces cipher fun token member => (regular token member).2,
    pathImage_pieces cipher fun token member => (other token member).2] at pieces
  apply components_inj cipher
  · exact fun token member => (regular token member).1
  · exact fun token member => (other token member).1
  · exact (List.cons.inj pieces).2

theorem encode_clean (text : List UInt8) :
    ∀ token ∈ components text, 0 ∉ cipher.encode token := fun _ member =>
  (cipher.clean (mem_components member).1).1

theorem components_regular (text : List UInt8) :
    ∀ token ∈ components text, token ≠ [] ∧ slash ∉ token := fun _ member =>
  ⟨(mem_components member).1, (mem_components member).2.1⟩

-- A call on the path stays within its arrays, makes the root and the images of the components,
-- returns the length of that string, and a call on another path makes the same string exactly when
-- the components are the same.
def Componentwise (root path : List UInt8) : Prop :=
  ∀ outBuff, ∃ buff,
    getRealPathBounded cipher.encode root path outBuff =
        some (buff, (pathImage cipher.encode root (components path)).length) ∧
      buff.Holds (pathImage cipher.encode root (components path)) ∧
      ∀ (other : List UInt8) (otherBuff : Nat → UInt8) (image : OutBuff) (length : Nat),
        other.head? = some slash → 0 ∉ other →
        getRealPathBounded cipher.encode root other otherBuff = some (image, length) →
        (image.text = buff.text ↔ components other = components path)

theorem getRealPathBounded_iff {other : List UInt8} (absolute : other.head? = some slash)
    (outBuff : Nat → UInt8) (result : OutBuff × Nat) :
    getRealPathBounded cipher.encode root other outBuff = some result ↔
      other.length < pathMax ∧
        (pathImage cipher.encode root (components other)).length + 2 ≤ pathMax ∧
        getRealPathWith cipher.encode root other outBuff = result := by
  rw [← getRealPathWith_extent absolute outBuff]
  unfold getRealPathBounded
  split
  next long => exact iff_of_false nofun fun ⟨short, _⟩ => by omega
  next short =>
    have room : other.length < pathMax :=
      Nat.lt_of_not_le fun long => short ⟨absolute, Nat.lt_succ_of_le long⟩
    dsimp only
    split
    next inside => simp [room, inside]
    next outside => simp [outside]

/-- Exactly the absolute paths that fit into buffer, and whose image fits into out_buff with a NUL
to spare, are encrypted component by component. -/
theorem getRealPath_componentwise_iff (rootClean : 0 ∉ root) (absolute : path.head? = some slash)
    (clean : 0 ∉ path) :
    Componentwise cipher root path ↔
      path.length < pathMax ∧
        (pathImage cipher.encode root (components path)).length + 2 ≤ pathMax := by
  constructor
  next =>
    intro stays
    obtain ⟨buff, made, -⟩ := stays fun _ => 0
    obtain ⟨short, inside, -⟩ := (getRealPathBounded_iff cipher absolute _ _).mp made
    exact ⟨short, inside⟩
  next =>
    rintro ⟨short, inside⟩ outBuff
    obtain ⟨holds, length⟩ :=
      getRealPathWith_eq rootClean absolute clean (encode_clean cipher path) outBuff
    refine ⟨_, (getRealPathBounded_iff cipher absolute outBuff _).mpr
      ⟨short, inside, Prod.ext rfl length⟩, holds, ?_⟩
    intro other otherBuff image returned otherAbsolute otherClean made
    obtain ⟨-, -, same⟩ := (getRealPathBounded_iff cipher otherAbsolute otherBuff _).mp made
    have otherHolds := (getRealPathWith_eq rootClean otherAbsolute otherClean
      (encode_clean cipher other) otherBuff).1
    rw [same] at otherHolds
    rw [holds.text, otherHolds.text]
    constructor
    · exact pathImage_inj cipher (components_regular other) (components_regular path)
    · exact fun equal => congrArg _ equal

theorem components_slashes (count : Nat) : components (List.replicate count slash) = [] := by
  rw [List.eq_nil_iff_forall_not_mem]
  intro token member
  obtain ⟨filled, apart, inside⟩ := mem_components member
  obtain ⟨byte, found⟩ := List.exists_mem_of_ne_nil token filled
  exact apart (List.eq_of_mem_replicate (inside found) ▸ found)

end

def paddedCipher : NameCipher :=
  Mount.nameCipher { aes := paddingAes, codec := standardCodec, root := [], rootClean := by simp }

theorem getRealPath_componentwise_doubled :
    Componentwise paddedCipher [slash, 114] [slash, 97, slash, slash, 98] := by
  have rootClean : 0 ∉ [slash, 114] := by decide
  have clean : 0 ∉ [slash, 97, slash, slash, 98] := by decide
  exact (getRealPath_componentwise_iff paddedCipher rootClean rfl clean).mpr (by decide)

-- The image of 5000 slashes is the root alone, but strcpy stores 5001 bytes into buffer.
theorem getRealPath_componentwise_fails :
    ¬ ∀ (cipher : NameCipher) (root path : List UInt8), 0 ∉ root → path.head? = some slash →
      0 ∉ path → (pathImage cipher.encode root (components path)).length < pathMax →
      Componentwise cipher root path := by
  intro componentwise
  have slashes : 0 ∉ List.replicate 5000 slash := fun member =>
    absurd (List.eq_of_mem_replicate member) (by decide)
  have fits : (pathImage paddedCipher.encode [slash, 114]
      (components (List.replicate 5000 slash))).length < pathMax := by
    rw [components_slashes]
    decide
  obtain ⟨_, made, -⟩ := componentwise paddedCipher [slash, 114] (List.replicate 5000 slash)
    (by decide) rfl slashes fits fun _ => 0
  obtain ⟨short, -⟩ := (getRealPathBounded_iff paddedCipher rfl _ _).mp made
  rw [List.length_replicate] at short
  exact absurd short (by decide)

end Akiso.Fuse
